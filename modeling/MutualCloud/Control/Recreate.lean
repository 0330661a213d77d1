import MutualCloud.Control.Copies
import MutualCloud.Control.Restart

/-!
# Creating a task again

The row of a task is inserted with `ON CONFLICT DO NOTHING`, and its records in the DHT are put
without a look at what is there. So a creation of a task that has a row keeps the row and replaces
its metadata and its state: `recreate_kept_iff` says that nothing changes exactly when every copy
that a put writes has what is put already. Then every copy of the metadata agrees with the rows
after any sequence of creations, restarts and requests of agents.

The code runs on `Node`, where a put that fails may have stored its record at the node of the
control server, and a put without peers leaves a copy in `localStore`.
-/

namespace MutualCloud.Control

open Go KeyedTable Interaction Labelled Store

/-! ## The records of a task -/

/-- What there is of a task: its row, and every copy of its metadata and of its state. -/
@[ext] structure TaskRecords where
  row : Option Row
  taskMeta : Copies TaskMeta
  state : Copies TaskState

/-- The records of a task. -/
def Node.records (n : Node) (id : String) : TaskRecords :=
  ⟨n.db.lookup id, n.keys (.taskMeta id), n.mirror (.state id)⟩

/-- The step leaves the records of the task alone. -/
def Harmless (id : String) (c : Site.Op) : Prop :=
  ∀ input n, (Node.effect c input n).2.records id = n.records id

section Harmless

variable {id : String}

theorem harmless_time : Harmless id (.base .timeNow) := fun _ _ => rfl

theorem harmless_enqueue (id' : String) : Harmless id (.base (.enqueue id')) := fun _ _ => rfl

theorem harmless_intn (n : ℕ) : Harmless id (.intn n) := fun _ _ => rfl

/-- A step on another key. -/
theorem harmless_key {k : DirKey} (h : DirKey.taskMeta id ≠ k) (op : Dht.Op k.Value) :
    Harmless id (.key k op) :=
  fun _ _ => TaskRecords.ext rfl (Function.update_of_ne h _ _) rfl

/-- `addToIndex` writes the index only. -/
theorem add_to_index_harmless (ns id' : String) :
    (addToIndex ns id').Always (fun _ _ => True) (Harmless id) :=
  add_to_index_always (harmless_intn _) harmless_time
    fun shard op => harmless_key (k := .indexShard ns shard) nofun op

/-- A run of harmless steps. -/
theorem harmless_run {α : Type} {p : SiteCode α} (h : p.Always (fun _ _ => True) (Harmless id))
    (inputs : ℕ → Node.Input) (n : Node) :
    (p.run Node.effect inputs n).state.records id = n.records id := by
  have hkept : p.Ensures Node.effect (fun _ => True) n fun _ n' => n'.records id = n.records id :=
    Prog.ensures_of_always (I := fun n' : Node => n'.records id = n.records id) h
      (fun c input n' hc hn' => (hc input n').trans hn') rfl
  exact hkept.run fun _ => trivial

end Harmless

/-! ## The two puts of a creation -/

/-- The put of the state, and what follows. -/
def putState {α : Type} (id : String) (st : TaskState) (stateFailed : String → SiteCode α)
    (rest : SiteCode α) : SiteCode α := do
  match ← Site.putMirror (.state id) st with
  | some e => stateFailed e
  | none => rest

/-- The part that `createTask` and `createTaskHandler` share: the metadata is put, then the state,
and after an error nothing more is put. -/
def putRecords {α : Type} (id : String) (m : TaskMeta) (st : TaskState)
    (metaFailed stateFailed : String → SiteCode α) (rest : SiteCode α) : SiteCode α := do
  match ← Site.putJSON (.taskMeta id) m with
  | some e => metaFailed e
  | none => putState id st stateFailed rest

/-- The input of the put of the state: the next one, or the one after it when the metadata went to
`localStore`. After an error the state is not put. -/
def stateInput (inputs : ℕ → Node.Input) : Option Node.Input :=
  match (inputs 0).mode with
  | .reached => some (inputs 1)
  | .alone => some (inputs 2)
  | .failed => none

/-- The records after the puts. -/
def TaskRecords.put (r : TaskRecords) (m : TaskMeta) (st : TaskState) (inputs : ℕ → Node.Input) :
    TaskRecords where
  row := r.row
  taskMeta := r.taskMeta.putJSON (inputs 0) m
  state := (stateInput inputs).elim r.state fun input => r.state.putJSON input st

/-- Every copy that a put writes has what is put already. -/
def TaskRecords.Already (r : TaskRecords) (m : TaskMeta) (st : TaskState)
    (inputs : ℕ → Node.Input) : Prop :=
  r.taskMeta.Holds (inputs 0) m ∧ ∀ input ∈ stateInput inputs, r.state.Holds input st

/-- The puts change nothing exactly when they put what is there. -/
theorem TaskRecords.put_eq_iff {r : TaskRecords} {m : TaskMeta} {st : TaskState}
    {inputs : ℕ → Node.Input} : r.put m st inputs = r ↔ r.Already m st inputs := by
  rw [TaskRecords.ext_iff]
  unfold put Already
  simp only [true_and, Copies.put_json_eq_iff]
  refine and_congr_right fun _ => ?_
  cases stateInput inputs with
  | none => simp
  | some input => simp [Copies.put_json_eq_iff]

section Puts

variable {α : Type} {id : String} {m : TaskMeta} {st : TaskState}
  {metaFailed stateFailed : String → SiteCode α} {rest : SiteCode α}

/-- What the put of the state does to the records. -/
theorem put_state_run (hstate : ∀ e, (stateFailed e).Always (fun _ _ => True) (Harmless id))
    (hrest : rest.Always (fun _ _ => True) (Harmless id)) (inputs : ℕ → Node.Input) (n : Node) :
    ((putState id st stateFailed rest).run Node.effect inputs n).state.records id =
      { n.records id with state := (n.records id).state.putJSON (inputs 0) st } := by
  have hput : (n.setMirror (.state id) ((n.mirror (.state id)).putJSON (inputs 0) st)).records id =
      { n.records id with state := (n.records id).state.putJSON (inputs 0) st } :=
    TaskRecords.ext rfl rfl (Function.update_self ..)
  unfold putState Site.putMirror
  rw [Prog.perform_bind]
  simp only [Prog.run, Node.effect]
  refine Eq.trans ?_ hput
  cases (inputs 0).putError with
  | some e => exact harmless_run (hstate e) _ _
  | none => exact harmless_run hrest _ _

/-- What the two puts do to the records. -/
theorem put_records_run (hmeta : ∀ e, (metaFailed e).Always (fun _ _ => True) (Harmless id))
    (hstate : ∀ e, (stateFailed e).Always (fun _ _ => True) (Harmless id))
    (hrest : rest.Always (fun _ _ => True) (Harmless id)) (inputs : ℕ → Node.Input) (n : Node) :
    ((putRecords id m st metaFailed stateFailed rest).run Node.effect inputs n).state.records id =
      (n.records id).put m st inputs := by
  obtain ⟨hvalue, hnode, hlength⟩ := Node.put_json_run (.taskMeta id) m inputs n
  have hput : (n.setKey (.taskMeta id) ((n.keys (.taskMeta id)).putJSON (inputs 0) m)).records id =
      { n.records id with taskMeta := (n.records id).taskMeta.putJSON (inputs 0) m } :=
    TaskRecords.ext rfl (Function.update_self ..) rfl
  unfold putRecords
  rw [Prog.run_bind]
  simp only [hvalue, hnode, hlength]
  unfold TaskRecords.put stateInput Site.Input.putError
  cases (inputs 0).mode with
  | failed =>
      rw [if_pos rfl]
      exact (harmless_run (hmeta _) _ _).trans hput
  | reached | alone =>
      rw [if_neg nofun]
      exact (put_state_run hstate hrest _ _).trans (by rw [hput]; rfl)

end Puts

/-! ## Creations -/

/-- The metadata that a creation puts. -/
def freshMeta (id image : String) (cmd : Strings) (now : Time) : TaskMeta := ⟨id, now, image, cmd⟩

section Creations

variable {id : String} {s : Node}

/-- The insertion of a row keeps the row that is there. -/
theorem create_job_records (job : DBJob) (input : Node.Input) (s : Node) :
    (Node.effect (.base (.sql (.createJob job))) input s).2.records job.id =
      { s.records job.id with
        row := if input.fault = none then some ((s.records job.id).row.getD (Row.fresh job))
          else (s.records job.id).row } := by
  refine TaskRecords.ext ?_ rfl rfl
  show (Store.effect (.createJob job) input.toInput s.db).2.lookup job.id = _
  unfold Store.effect
  cases input.fault with
  | some e => rfl
  | none =>
      show (insertNew s.db job.id (Row.fresh job)).2.lookup job.id = _
      rw [lookup_insert_new, if_pos rfl]
      rfl

/-- The clock is read first. -/
theorem call_time_run {α : Type} (f : Time → SiteCode α) (inputs : ℕ → Node.Input) (s : Node) :
    ((Prog.call (.base .timeNow) f).run Node.effect inputs s).state =
      ((f (inputs 0).now).run Node.effect (fun n => inputs (n + 1)) s).state := rfl

/-- A call is made first, and then the rest is run. -/
theorem call_run {α : Type} (c : Site.Op) (f : c.Response → SiteCode α) (inputs : ℕ → Node.Input)
    (s : Node) :
    ((Prog.call c f).run Node.effect inputs s).state =
      ((f (Node.effect c (inputs 0) s).1).run Node.effect (fun n => inputs (n + 1))
        (Node.effect c (inputs 0) s).2).state := rfl

/-- `createTask` is the two puts, and then the index. -/
theorem create_task_eq (ns id image : String) (cmd : Strings) :
    createTask ns id image cmd = .call (.base .timeNow) fun now =>
      putRecords id (freshMeta id image cmd now) (queuedState id now)
        (fun e => pure (.error (.network e))) (fun e => pure (.error (.network e)))
        (Site.putJSONCAS (.index ns) (Dht.indexCheck indexCodec incr id now)) := rfl

/-- What `createTask` does to the records of its task. -/
theorem create_task_run (ns image : String) (cmd : Strings) (inputs : ℕ → Node.Input) :
    ((createTask ns id image cmd).run Node.effect inputs s).state.records id =
      (s.records id).put (freshMeta id image cmd (inputs 0).now) (queuedState id (inputs 0).now)
        fun n => inputs (n + 1) := by
  have hindex : (Site.putJSONCAS (.index ns)
      (Dht.indexCheck indexCodec incr id (inputs 0).now)).Always (fun _ _ => True) (Harmless id) :=
    Prog.always_embed (fun op => harmless_key (k := .index ns) nofun op) _
  rw [create_task_eq, call_time_run]
  refine put_records_run ?_ ?_ hindex _ s
  · exact fun _ => trivial
  · exact fun _ => trivial

/-- The rest of `publishTask` after the two puts. -/
def listTask (ns id : String) : SiteCode CreateReply := do
  match ← addToIndex ns id with
  | some e => pure (.error 500 ("index update failed: " ++ e))
  | none =>
      Site.lift (enqueue id)
      pure (.created id)

/-- Entering a task into the index is harmless. -/
theorem list_task_harmless (ns id' : String) :
    (listTask ns id').Always (fun _ _ => True) (Harmless id) := by
  refine Prog.always_bind (add_to_index_harmless ns id') fun result => ?_
  cases result with
  | some e => trivial
  | none => exact ⟨harmless_enqueue id', fun _ _ => trivial⟩

/-- The row that a request creates. -/
def freshJob (req : CreateTaskReq) (now : Time) : DBJob :=
  ⟨req.id, req.image, req.command, .queued, now, 0⟩

/-- What `createTaskHandler` does after the insertion of the row. -/
def afterCreate (ns : String) (req : CreateTaskReq) (now : Time) :
    Except SqlError ℕ → SiteCode CreateReply
  | .error e => pure (.error 500 ("db create failed: " ++ (Err.sql e).text))
  | .ok _ => publishTask ns req now

/-- The steps of `createTaskHandler` for a request that passed its checks. -/
theorem create_task_handler_eq (ns : String) {env : Env} {r : Request CreateTaskReq}
    {req : CreateTaskReq} (hreq : createTaskRequest env r = .ok req) :
    createTaskHandler env ns r = .call (.base .timeNow) fun now =>
      .call (.base (.sql (.createJob (freshJob req now)))) (afterCreate ns req now) := by
  unfold createTaskHandler
  rw [hreq]
  refine congrArg (Prog.call _) (funext fun now => congrArg (Prog.call _) (funext fun result => ?_))
  cases result <;> rfl

/-- What `createTaskHandler` does to the records of the task of its request. -/
theorem create_task_handler_run (ns : String) {env : Env} {r : Request CreateTaskReq}
    {req : CreateTaskReq} (hreq : createTaskRequest env r = .ok req) (inputs : ℕ → Node.Input) :
    ((createTaskHandler env ns r).run Node.effect inputs s).state.records req.id =
      if (inputs 1).fault = none then
        { s.records req.id with
          row := some ((s.records req.id).row.getD (Row.fresh (freshJob req (inputs 0).now))) }.put
          (freshMeta req.id req.image req.command (inputs 0).now)
          (queuedState req.id (inputs 0).now) fun n => inputs (n + 2)
      else s.records req.id := by
  have hrow := create_job_records (freshJob req (inputs 0).now) (inputs 1) s
  rw [create_task_handler_eq ns hreq, call_time_run, call_run]
  cases hfault : (inputs 1).fault with
  | some e =>
      have hanswer : Node.effect (.base (.sql (.createJob (freshJob req (inputs 0).now))))
          (inputs 1) s = (.error e, s) := by
        simp [Node.effect, Store.effect, hfault]
      rw [hanswer]
      rfl
  | none =>
      obtain ⟨n, hanswer⟩ : ∃ n, (Node.effect
          (.base (.sql (.createJob (freshJob req (inputs 0).now)))) (inputs 1) s).1 = .ok n := by
        simp [Node.effect, Store.effect, hfault, Stmt.exec]
      rw [hfault, if_pos rfl] at hrow
      rw [hanswer, if_pos rfl]
      refine (put_records_run ?_ ?_ (list_task_harmless ns req.id) _ _).trans ?_
      · exact fun _ => trivial
      · exact fun _ => trivial
      exact congrArg (fun r : TaskRecords => r.put _ _ _) hrow

/-- The part of the loop over `--create` after `createTask`. -/
def insertRow (id image : String) (cmd : Strings) (result : Except Dht.Err Unit) :
    SiteCode (Except Dht.Err Unit) := do
  let now ← Site.lift timeNow
  let _ ← Site.lift (store (PGStore.createJob ⟨id, image, cmd, .queued, now, 0⟩))
  Site.lift (enqueue id)
  pure result

/-- What the loop over `--create` does to the records of its task. -/
theorem create_from_flag_run (ns image : String) (cmd : Strings) (inputs : ℕ → Node.Input) :
    ∃ row, ((createFromFlag ns image cmd id).run Node.effect inputs s).state.records id =
        { (s.records id).put (freshMeta id image cmd (inputs 0).now)
          (queuedState id (inputs 0).now) (fun n => inputs (n + 1)) with row := row } ∧
      (row = (s.records id).row ∨
        ∃ now, row = some ((s.records id).row.getD
          (Row.fresh ⟨id, image, cmd, .queued, now, 0⟩))) := by
  have hput := @create_task_run id s ns image cmd inputs
  have hinsert : ∀ result inputs s, ((insertRow id image cmd result).run Node.effect inputs
      s).state.records id = (Node.effect (.base (.sql (.createJob
        ⟨id, image, cmd, .queued, (inputs 0).now, 0⟩))) (inputs 1) s).2.records id := by
    intro result inputs s
    have heq : insertRow id image cmd result = .call (.base .timeNow) fun now =>
        .call (.base (.sql (.createJob ⟨id, image, cmd, .queued, now, 0⟩))) fun _ =>
          .call (.base (.enqueue id)) fun _ => .done result := by
      refine congrArg (Prog.call _) (funext fun now => congrArg (Prog.call _) (funext fun r => ?_))
      cases r <;> rfl
    have hrest : (Prog.call (.base (.enqueue id)) fun _ => .done result :
        SiteCode (Except Dht.Err Unit)).Always (fun _ _ => True) (Harmless id) :=
      ⟨harmless_enqueue id, fun _ _ => trivial⟩
    rw [heq, call_time_run, call_run]
    exact harmless_run hrest _ _
  have hrun : (createFromFlag ns image cmd id).run Node.effect inputs s =
      (createTask ns id image cmd >>= insertRow id image cmd).run Node.effect inputs s := rfl
  rw [hrun, Prog.run_bind]
  generalize (createTask ns id image cmd).run Node.effect inputs s = first at hput ⊢
  dsimp only
  rw [hinsert, create_job_records ⟨id, image, cmd, .queued, _, 0⟩, hput]
  split
  · exact ⟨_, rfl, .inr ⟨_, rfl⟩⟩
  · exact ⟨_, rfl, .inl rfl⟩

end Creations

/-! ## Other tasks -/

section Others

variable {id id' : String}

/-- The insertion of another row. -/
theorem harmless_create {job : DBJob} (h : id ≠ job.id) :
    Harmless id (.base (.sql (.createJob job))) := by
  intro input s
  refine TaskRecords.ext ?_ rfl rfl
  show (Store.effect (.createJob job) input.toInput s.db).2.lookup id = _
  unfold Store.effect
  cases input.fault with
  | some e => rfl
  | none =>
      show (insertNew s.db job.id (Row.fresh job)).2.lookup id = _
      rw [lookup_insert_new, if_neg h]
      rfl

/-- A put to the state of another task. -/
theorem harmless_put_state (h : id ≠ id') (st : TaskState) :
    Harmless id (.putJSON (.state id') st) := by
  have hkey : DhtKey.state id ≠ .state id' := by simpa using h
  exact fun _ _ => TaskRecords.ext rfl rfl (Function.update_of_ne hkey _ _)

/-- What is published for another task. -/
theorem publish_harmless (h : id ≠ id') (ns image : String) (command : Strings) :
    PublishSteps (Harmless id) ns id' image command := by
  have hkey : DirKey.taskMeta id ≠ .taskMeta id' := by simpa using h
  exact {
    time := harmless_time
    enqueue := harmless_enqueue id'
    intn := harmless_intn _
    put := fun _ => harmless_key hkey _
    keep := fun _ => harmless_key hkey _
    state := fun _ => harmless_put_state h _
    shard := fun shard op => harmless_key (k := .indexShard ns shard) nofun op }

/-- `createTaskHandler` leaves the records of other tasks alone. -/
theorem create_task_handler_harmless (ns : String) {env : Env} {r : Request CreateTaskReq}
    (h : ∀ req, createTaskRequest env r = .ok req → id ≠ req.id) :
    (createTaskHandler env ns r).Always (fun _ _ => True) (Harmless id) := by
  refine PublishSteps.create_task_handler fun req hreq => ?_
  exact ⟨publish_harmless (h req hreq) ns _ _, fun now => harmless_create (h req hreq)⟩

/-- The loop over `--create` leaves the records of other tasks alone. -/
theorem create_from_flag_harmless (h : id ≠ id') (ns image : String) (cmd : Strings) :
    (createFromFlag ns image cmd id').Always (fun _ _ => True) (Harmless id) :=
  (publish_harmless h ns image cmd).create_from_flag
    (fun op => harmless_key (k := .index ns) nofun op) fun _ => harmless_create h

end Others

/-! ## Rows and metadata that agree -/

/-- Whatever copy of the metadata of a task an agent reads, its image and command are those of the
row. -/
def TaskRecords.Agree (r : TaskRecords) : Prop :=
  ∀ row ∈ r.row, ∀ m, r.taskMeta.Has m → m.image = row.image ∧ m.command = row.command

/-- The metadata of every task agrees with its row. -/
def Agrees (s : Node) : Prop := ∀ id, (s.records id).Agree

/-- The jobs of the second table are in the first, with the same image and command. -/
def SameJobs (db db' : DemandJobs) : Prop :=
  ∀ id row', db'.lookup id = some row' → ∃ row, db.lookup id = some row ∧
    row.image = row'.image ∧ row.command = row'.command

theorem SameJobs.refl (db : DemandJobs) : SameJobs db db := fun _ row hrow => ⟨row, hrow, rfl, rfl⟩

theorem SameJobs.trans {db₀ db₁ db₂ : DemandJobs} (h : SameJobs db₀ db₁) (h' : SameJobs db₁ db₂) :
    SameJobs db₀ db₂ := by
  intro id row₂ hrow₂
  obtain ⟨row₁, hrow₁, himage, hcommand⟩ := h' id row₂ hrow₂
  obtain ⟨row₀, hrow₀, himage', hcommand'⟩ := h id row₁ hrow₁
  exact ⟨row₀, hrow₀, himage'.trans himage, hcommand'.trans hcommand⟩

/-- The step inserts no row. -/
def CreatesNone (c : Call) : Prop := ∀ job, c ≠ .sql (.createJob job)

/-- A statement that inserts no row keeps the jobs. -/
theorem same_jobs_stmt {stmt : Stmt} (h : ∀ job, stmt ≠ .createJob job) (input : Store.Input)
    (db : DemandJobs) : SameJobs db (Store.effect stmt input db).2 := by
  intro id row' hrow'
  have hstep := row_step (effect_step stmt input db) id
  rw [hrow'] at hstep
  generalize db.lookup id = old at hstep
  generalize (Store.effect stmt input db).1 = response at hstep
  cases hstep with
  | idle => exact ⟨row', rfl, rfl, rfl⟩
  | create job => exact absurd rfl (h job)
  | attach _ _ row | claim _ _ _ row | renew _ _ _ _ row | finish _ _ _ _ row | requeue _ row =>
      exact ⟨row, rfl, rfl, rfl⟩

/-- A step on the world that inserts no row keeps the jobs, and leaves the directory alone. -/
theorem same_jobs_step {c : Call} (hc : CreatesNone c) (input : Node.Input) (s : Node) :
    SameJobs s.db (Node.effect (.base c) input s).2.db ∧
      (Node.effect (.base c) input s).2.keys = s.keys := by
  cases c with
  | sql stmt =>
      exact ⟨same_jobs_stmt (fun job heq => hc job (congrArg Call.sql heq)) input.toInput s.db, rfl⟩
  | putJSON | delJSON | getJSON | timeNow | enqueue => exact ⟨SameJobs.refl s.db, rfl⟩

/-- Jobs that are the same agree with the same metadata. -/
theorem Agrees.of_same_jobs {s s' : Node} (h : Agrees s) (hjobs : SameJobs s.db s'.db)
    (hkeys : s'.keys = s.keys) : Agrees s' := by
  intro id row' hrow' m hm
  obtain ⟨row, hrow, himage, hcommand⟩ := hjobs id row' hrow'
  rw [← himage, ← hcommand]
  refine h id row hrow m ?_
  have hmeta : (s'.keys (.taskMeta id)).Has m := hm
  rw [hkeys] at hmeta
  exact hmeta

/-- Code that inserts no row keeps the rows and metadata in agreement. -/
theorem Agrees.of_run {α : Type} {p : Code α} {s : Node} (h : Agrees s)
    (hp : p.Always (fun _ _ => True) CreatesNone) (inputs : ℕ → Node.Input) :
    Agrees ((Site.lift p).run Node.effect inputs s).state := by
  have hsteps : (Site.lift p).Always (fun _ _ => True) fun c =>
      ∃ c', c = .base c' ∧ CreatesNone c' := hp.embed fun c hc => ⟨c, rfl, hc⟩
  have hrun : (Site.lift p).Ensures Node.effect (fun _ => True) s fun _ s' => Agrees s' := by
    refine Prog.ensures_of_always (I := Agrees) hsteps ?_ h
    rintro c input s' ⟨c', rfl, hc'⟩ hs'
    obtain ⟨hjobs, hkeys⟩ := same_jobs_step hc' input s'
    exact hs'.of_same_jobs hjobs hkeys
  exact hrun.run fun _ => trivial

/-- The handlers of agents' requests and the requeue loop insert no row. -/
theorem handlers_create_none (id : String) : HandlerSteps CreatesNone id where
  time _ := nofun
  enqueue _ := nofun
  get _ _ := nofun
  state _ _ := nofun
  lease _ _ := nofun
  noLease _ := nofun
  taskAd _ _ := nofun
  manifest _ := nofun
  stmt stmt hstmt job heq := by
    cases heq
    exact hstmt

/-- A loop that announces the queued jobs again is harmless. -/
theorem reannounce_harmless (id : String) :
    reannounceTick.Always (fun _ _ => True) (Harmless id) := by
  have hlist : Harmless id .listQueued := by
    intro input s
    simp only [Node.effect]
    split <;> rfl
  refine ⟨hlist, fun result _ => ?_⟩
  cases result with
  | error e => trivial
  | ok jobs =>
      exact Prog.always_forM fun j _ => ⟨harmless_enqueue j.id, fun _ _ => trivial⟩

/-- The step leaves the rows alone, and metadata that it writes is that of the rows. -/
def CopiesRows (db : DemandJobs) (c : Site.Op) : Prop :=
  (∀ input s, (Node.effect c input s).2.db = s.db) ∧
    ∀ id op v, c = .key (.taskMeta id) op → op = .putValue v ∨ op = .storeLocal v →
      ∀ row, db.lookup id = some row → v.image = row.image ∧ v.command = row.command

section Restore

variable {db : DemandJobs} {ns : String}

/-- A step that leaves the rows and the metadata alone. -/
theorem copies_rows_of_ne {c : Site.Op} (hdb : ∀ input s, (Node.effect c input s).2.db = s.db)
    (h : ∀ id op, c ≠ .key (.taskMeta id) op) : CopiesRows db c :=
  ⟨hdb, fun id op _ heq => absurd heq (h id op)⟩

/-- The body of the loop of `restoreJobsFromDemand` copies the row to the metadata. -/
theorem restore_job_copies {j : DBJob} (hj : j ∈ Site.queuedJobs db) :
    (restoreJob ns j).Always (fun _ _ => True) (CopiesRows db) := by
  obtain ⟨row, hrow, -, hjob⟩ := Site.mem_queued_jobs.mp hj
  have hmeta : ∀ createdAt op, op = .putValue ⟨j.id, createdAt, j.image, j.command⟩ ∨
      op = .storeLocal ⟨j.id, createdAt, j.image, j.command⟩ →
      CopiesRows db (.key (.taskMeta j.id) op) := by
    refine fun createdAt op hop => ⟨fun _ _ => rfl, fun id op' v heq hv row' hrow' => ?_⟩
    cases heq
    obtain rfl : row = row' := Option.some.inj (hrow.symm.trans hrow')
    have hcopy : v = ⟨j.id, createdAt, j.image, j.command⟩ := by
      rcases hop with rfl | rfl <;> rcases hv with hv | hv <;> cases hv <;> rfl
    rw [hcopy]
    exact ⟨congrArg DBJob.image hjob, congrArg DBJob.command hjob⟩
  have hpublish : PublishSteps (CopiesRows db) ns j.id j.image j.command := {
    time := copies_rows_of_ne (fun _ _ => rfl) fun _ _ => nofun
    enqueue := copies_rows_of_ne (fun _ _ => rfl) fun _ _ => nofun
    intn := copies_rows_of_ne (fun _ _ => rfl) fun _ _ => nofun
    put := fun createdAt => hmeta createdAt _ (.inl rfl)
    keep := fun createdAt => hmeta createdAt _ (.inr rfl)
    state := fun _ => copies_rows_of_ne (fun _ _ => rfl) fun _ _ => nofun
    shard := fun _ _ => copies_rows_of_ne (fun _ _ => rfl) fun _ _ => nofun }
  exact hpublish.restore_job

/-- A copy of the metadata of a task was there, or the step writes it. -/
theorem meta_step {c : Site.Op} {input : Node.Input} {s : Node} {id : String} {m : TaskMeta}
    (h : ((Node.effect c input s).2.records id).taskMeta.Has m) :
    (s.records id).taskMeta.Has m ∨
      ∃ op, c = .key (.taskMeta id) op ∧ (op = .putValue m ∨ op = .storeLocal m) := by
  cases c with
  | base c => cases c <;> exact .inl h
  | intn | announced | putJSON => exact .inl h
  | listQueued =>
      simp only [Node.effect] at h
      split at h <;> exact .inl h
  | key k op =>
      by_cases hk : DirKey.taskMeta id = k
      · subst hk
        have hmeta : ((Node.effect (.key (.taskMeta id) op) input s).2.records id).taskMeta =
            (Copies.effect op input (s.keys (.taskMeta id))).2 := Function.update_self ..
        rw [hmeta] at h
        exact (Copies.has_effect h).imp_right fun hop => ⟨op, rfl, hop⟩
      · have hmeta : ((Node.effect (.key k op) input s).2.records id).taskMeta =
            (s.records id).taskMeta := Function.update_of_ne hk ..
        rw [hmeta] at h
        exact .inl h

/-- What copies the rows keeps the agreement. -/
theorem Agrees.step {s : Node} {c : Site.Op} (h : Agrees s) (hdb : s.db = db)
    (hc : CopiesRows db c) (input : Node.Input) : Agrees (Node.effect c input s).2 := by
  intro id row hrow m hm
  have hrow' : s.db.lookup id = some row := by
    rw [← hc.1 input s]
    exact hrow
  rcases meta_step hm with hold | ⟨op, hcall, hop⟩
  · exact h id row hrow' m hold
  · exact hc.2 id op m hcall hop row (hdb ▸ hrow')

/-- A restart of the process keeps the agreement. -/
theorem Agrees.restarted {s : Node} (h : Agrees s) : Agrees s.restarted :=
  fun id row hrow m hm => h id row hrow m (Copies.has_of_forgotten hm)

/-- `restoreJobsFromDemand` keeps the agreement. -/
theorem Agrees.restore {s : Node} (h : Agrees s) (inputs : ℕ → Node.Input) :
    Agrees ((restoreJobsFromDemand ns).run Node.effect inputs s).state := by
  have hrun : (restoreJobsFromDemand ns).Ensures Node.effect (fun _ => True) s
      fun _ s' => Agrees s' := by
    intro input _
    simp only [Node.effect]
    cases input.fault with
    | some e => exact h
    | none =>
        have hloop : ((Site.queuedJobs s.db).forM (restoreJob ns)).Ensures Node.effect
            (fun _ => True) s fun _ s' => s'.db = s.db ∧ Agrees s' := by
          refine Prog.ensures_of_always (P := CopiesRows s.db)
            (I := fun s' : Node => s'.db = s.db ∧ Agrees s') ?_ ?_ ⟨rfl, h⟩
          · exact Prog.always_forM fun j hj => restore_job_copies hj
          · intro c input s' hc hs'
            exact ⟨(hc.1 input s').trans hs'.1, hs'.2.step hs'.1 hc input⟩
        exact hloop.mono fun _ s' hs' => hs'.2
  exact hrun.run fun _ => trivial

end Restore

/-! ## Sequences of creations, restarts and requests -/

/-- What the control server is asked to do: a request to create a task, a task that `--create`
names, the restart, and its services. -/
inductive Deed where
  | post (env : Env) (r : Request CreateTaskReq)
  | flag (image : String) (cmd : Strings) (id : String)
  | restart
  | service (a : Service)

namespace Deed

/-- The node after a deed. -/
def after (ns : String) (d : Deed) (inputs : ℕ → Node.Input) (s : Node) : Node :=
  match d with
  | post env r => ((createTaskHandler env ns r).run Node.effect inputs s).state
  | flag image cmd id => ((createFromFlag ns image cmd id).run Node.effect inputs s).state
  | restart => ((restoreJobsFromDemand ns).run Node.effect inputs s.restarted).state
  | service a => a.after Node.effect ns inputs s

/-- The deed creates a task. -/
def isCreation : Deed → Prop
  | post _ _ | flag _ _ _ => True
  | restart | service _ => False

/-- The condition on a creation, of the records of its task: when there is a row, every copy that a
put writes has what is put already; when there is none, every copy of metadata that the put does
not write is of the same image and command. -/
def Clean (r : TaskRecords) (id image : String) (cmd : Strings) (now : Time)
    (inputs : ℕ → Node.Input) : Prop :=
  match r.row with
  | some _ => r.Already (freshMeta id image cmd now) (queuedState id now) inputs
  | none => ∀ m, r.taskMeta.Spared (inputs 0) m → m.image = image ∧ m.command = cmd

/-- The condition on a deed. -/
def Meets (inputs : ℕ → Node.Input) (s : Node) : Deed → Prop
  | post env r => ∀ req, createTaskRequest env r = .ok req → (inputs 1).fault = none →
      Clean (s.records req.id) req.id req.image req.command (inputs 0).now fun n => inputs (n + 2)
  | flag image cmd id =>
      Clean (s.records id) id image cmd (inputs 0).now fun n => inputs (n + 1)
  | restart | service _ => True

end Deed

/-- The node after a sequence of deeds, each with its inputs. -/
def afterDeeds (ns : String) (s : Node) : List (Deed × (ℕ → Node.Input)) → Node
  | [] => s
  | (d, inputs) :: rest => afterDeeds ns (d.after ns inputs s) rest

section Sequences

variable {ns : String} {s : Node}

/-- A clean creation keeps the records of its task in agreement. -/
theorem agree_of_clean {r : TaskRecords} {id image : String} {cmd : Strings} {now : Time}
    {inputs : ℕ → Node.Input} (h : r.Agree) (hclean : Deed.Clean r id image cmd now inputs)
    {row : Option Row} (time : Time) (hrow : row = r.row ∨
      row = some (r.row.getD (Row.fresh ⟨id, image, cmd, .queued, time, 0⟩))) :
    ({ r.put (freshMeta id image cmd now) (queuedState id now) inputs with row := row } :
      TaskRecords).Agree := by
  obtain ⟨old, m₀, st⟩ := r
  unfold Deed.Clean at hclean
  cases old with
  | some old =>
      -- the row stays, and the puts change nothing
      have hsame : row = some old := by rcases hrow with rfl | rfl <;> rfl
      subst hsame
      have hput := TaskRecords.put_eq_iff.mpr hclean
      intro row hrow m hm
      rw [hput] at hm
      exact h row hrow m hm
  | none =>
      intro row' hrow' m hm
      have hfresh : row' = Row.fresh ⟨id, image, cmd, .queued, time, 0⟩ := by
        rcases hrow with rfl | rfl
        · cases hrow'
        · exact (Option.some.inj hrow').symm
      subst hfresh
      rcases Copies.has_put_json hm with rfl | hspared
      · exact ⟨rfl, rfl⟩
      · exact hclean m hspared

/-- A request whose creation is clean keeps the agreement. -/
theorem Agrees.post (h : Agrees s) {env : Env} {r : Request CreateTaskReq}
    {inputs : ℕ → Node.Input} (hmeets : (Deed.post env r).Meets inputs s) :
    Agrees ((createTaskHandler env ns r).run Node.effect inputs s).state := by
  intro id
  by_cases hown : ∃ req, createTaskRequest env r = .ok req ∧ id = req.id
  · obtain ⟨req, hreq, rfl⟩ := hown
    rw [create_task_handler_run ns hreq]
    split
    next hfault => exact agree_of_clean (h req.id) (hmeets req hreq hfault) _ (.inr rfl)
    next => exact h req.id
  · have hother := @create_task_handler_harmless id ns env r
      fun req hreq heq => hown ⟨req, hreq, heq⟩
    rw [harmless_run hother]
    exact h id

/-- A task of `--create` whose creation is clean keeps the agreement. -/
theorem Agrees.flag (h : Agrees s) {image : String} {cmd : Strings} {id : String}
    {inputs : ℕ → Node.Input} (hmeets : (Deed.flag image cmd id).Meets inputs s) :
    Agrees ((createFromFlag ns image cmd id).run Node.effect inputs s).state := by
  intro id'
  by_cases hown : id' = id
  · subst hown
    obtain ⟨row, hrun, hrow⟩ := @create_from_flag_run id' s ns image cmd inputs
    rw [hrun]
    rcases hrow with hrow | ⟨now, hrow⟩
    · exact agree_of_clean (h id') hmeets 0 (.inl hrow)
    · exact agree_of_clean (h id') hmeets now (.inr hrow)
  · rw [harmless_run (create_from_flag_harmless hown ns image cmd)]
    exact h id'

/-- A service keeps the agreement. -/
theorem Agrees.service (h : Agrees s) (a : Service) (inputs : ℕ → Node.Input) :
    Agrees (a.after Node.effect ns inputs s) := by
  cases a with
  | requeue =>
      refine h.of_run (HandlerSteps.requeue_tick ?_ ?_ handlers_create_none) inputs
      · exact fun _ => nofun
      · exact fun _ => nofun
  | reannounce =>
      intro id
      show ((reannounceTick.run Node.effect inputs s).state.records id).Agree
      rw [harmless_run (reannounce_harmless id)]
      exact h id
  | claim env r =>
      exact h.of_run (HandlerSteps.try_claim_handler fun c _ => handlers_create_none c.id) inputs
  | heartbeat env r =>
      exact h.of_run (HandlerSteps.heartbeat_handler fun c _ => handlers_create_none c.id) inputs
  | finish env r =>
      exact h.of_run (HandlerSteps.finish_handler fun c _ => handlers_create_none c.id) inputs

/-- A deed that meets its condition keeps the agreement. -/
theorem Agrees.deed (h : Agrees s) {d : Deed} {inputs : ℕ → Node.Input}
    (hmeets : d.Meets inputs s) : Agrees (d.after ns inputs s) := by
  cases d with
  | post env r => exact h.post hmeets
  | flag image cmd id => exact h.flag hmeets
  | restart => exact h.restarted.restore inputs
  | service a => exact h.service a inputs

/-- The rows and the metadata agree after every sequence of deeds that meet their conditions. -/
theorem Agrees.deeds (h : Agrees s) {deeds : List (Deed × (ℕ → Node.Input))}
    (hmeets : ∀ before d inputs after, deeds = before ++ (d, inputs) :: after →
      d.Meets inputs (afterDeeds ns s before)) : Agrees (afterDeeds ns s deeds) := by
  induction deeds generalizing s with
  | nil => exact h
  | cons step rest ih =>
      obtain ⟨d, inputs⟩ := step
      refine ih (h.deed (hmeets [] d inputs rest rfl)) ?_
      intro before d' inputs' after heq
      exact hmeets ((d, inputs) :: before) d' inputs' after (by rw [heq]; rfl)

/-- A request for a task that has a row changes nothing exactly when the database fails, or every
copy that a put writes has what is put already. -/
theorem post_kept_iff {env : Env} {r : Request CreateTaskReq} {req : CreateTaskReq}
    (hreq : createTaskRequest env r = .ok req) {row : Row}
    (hrow : (s.records req.id).row = some row) (inputs : ℕ → Node.Input) :
    ((createTaskHandler env ns r).run Node.effect inputs s).state.records req.id =
        s.records req.id ↔
      (inputs 1).fault ≠ none ∨ (s.records req.id).Already
        (freshMeta req.id req.image req.command (inputs 0).now) (queuedState req.id (inputs 0).now)
        fun n => inputs (n + 2) := by
  rw [create_task_handler_run ns hreq, hrow]
  have hsame : { s.records req.id with row := some row } = s.records req.id := by
    rw [← hrow]
  split
  next hfault =>
      rw [Option.getD_some, hsame, TaskRecords.put_eq_iff]
      simp [hfault]
  next hfault => exact ⟨fun _ => .inl hfault, fun _ => rfl⟩

/-- `--create` for a task that has a row changes nothing exactly when every copy that a put
writes has what is put already. -/
theorem flag_kept_iff {image : String} {cmd : Strings} {id : String} {row : Row}
    (hrow : (s.records id).row = some row) (inputs : ℕ → Node.Input) :
    ((createFromFlag ns image cmd id).run Node.effect inputs s).state.records id = s.records id ↔
      (s.records id).Already (freshMeta id image cmd (inputs 0).now)
        (queuedState id (inputs 0).now) fun n => inputs (n + 1) := by
  obtain ⟨row', hrun, hrow'⟩ := @create_from_flag_run id s ns image cmd inputs
  have hsame : row' = (s.records id).row := by
    rcases hrow' with hrow' | ⟨now, hrow'⟩
    · exact hrow'
    · rw [hrow', hrow]
      rfl
  rw [hrun, hsame, ← TaskRecords.put_eq_iff]
  rfl

/-- A creation that meets its condition leaves the records of every task with a row alone. -/
theorem Deed.Meets.kept {d : Deed} {inputs : ℕ → Node.Input} (h : d.Meets inputs s)
    (hcreation : d.isCreation) {id : String} {row : Row} (hrow : (s.records id).row = some row) :
    (d.after ns inputs s).records id = s.records id := by
  cases d with
  | post env r =>
      by_cases hown : ∃ req, createTaskRequest env r = .ok req ∧ id = req.id
      · obtain ⟨req, hreq, rfl⟩ := hown
        refine (post_kept_iff hreq hrow inputs).mpr ?_
        cases hfault : (inputs 1).fault with
        | some e => exact .inl nofun
        | none =>
            have hclean := h req hreq hfault
            unfold Deed.Clean at hclean
            rw [hrow] at hclean
            exact .inr hclean
      · exact harmless_run (create_task_handler_harmless ns
          fun req hreq heq => hown ⟨req, hreq, heq⟩) inputs s
  | flag image cmd id' =>
      by_cases hown : id = id'
      · subst hown
        have hclean : Deed.Clean _ _ _ _ _ _ := h
        unfold Deed.Clean at hclean
        rw [hrow] at hclean
        exact (flag_kept_iff hrow inputs).mpr hclean
      · exact harmless_run (create_from_flag_harmless hown ns image cmd) inputs s
  | restart | service => exact absurd hcreation nofun

/-- A creation of a task that has a row leaves its row and every copy of its metadata and state
alone exactly when every copy that a put writes has what is put already, or when the database fails
and the request ends before its puts. In a sequence of deeds whose creations all are so, no creation
changes a task that has a row, and every copy of the metadata agrees with the rows at all times. -/
theorem recreate_kept_iff (ns : String) :
    (∀ (s : Node) (env : Env) (r : Request CreateTaskReq) (req : CreateTaskReq) (row : Row)
      (inputs : ℕ → Node.Input), createTaskRequest env r = .ok req →
      (s.records req.id).row = some row →
      (((Deed.post env r).after ns inputs s).records req.id = s.records req.id ↔
        (inputs 1).fault ≠ none ∨ (s.records req.id).Already
          (freshMeta req.id req.image req.command (inputs 0).now)
          (queuedState req.id (inputs 0).now) fun n => inputs (n + 2))) ∧
    (∀ (s : Node) (image : String) (cmd : Strings) (id : String) (row : Row)
      (inputs : ℕ → Node.Input), (s.records id).row = some row →
      (((Deed.flag image cmd id).after ns inputs s).records id = s.records id ↔
        (s.records id).Already (freshMeta id image cmd (inputs 0).now)
          (queuedState id (inputs 0).now) fun n => inputs (n + 1))) ∧
    ∀ deeds : List (Deed × (ℕ → Node.Input)),
      (∀ before d inputs after, deeds = before ++ (d, inputs) :: after →
        d.Meets inputs (afterDeeds ns Node.empty before)) →
      Agrees (afterDeeds ns Node.empty deeds) ∧
      ∀ before d inputs after, deeds = before ++ (d, inputs) :: after → d.isCreation →
        ∀ id row, ((afterDeeds ns Node.empty before).records id).row = some row →
          (d.after ns inputs (afterDeeds ns Node.empty before)).records id =
            (afterDeeds ns Node.empty before).records id := by
  refine ⟨fun s env r req row inputs hreq hrow => post_kept_iff hreq hrow inputs,
    fun s image cmd id row inputs hrow => flag_kept_iff hrow inputs, fun deeds hmeets => ⟨?_, ?_⟩⟩
  · have hempty : Agrees Node.empty := by
      intro id row hrow
      cases hrow
    exact hempty.deeds hmeets
  · intro before d inputs after heq hcreation id row hrow
    exact (hmeets before d inputs after heq).kept hcreation hrow

end Sequences

namespace Sample

/-- The task is posted again, with another image. -/
def postedAgain : Request CreateTaskReq :=
  { posted with body := .ok ⟨"job", "busybox", some ["echo"]⟩ }

/-- A task is posted and claimed. -/
def postClaim : List (Deed × (ℕ → Node.Input)) :=
  [(.post noAuth posted, allTake), (.service (.claim noAuth claims), allTake)]

end Sample

/-- A task is posted, and then posted again at the same time. -/
theorem recreate_kept_iff_posted :
    let s := afterDeeds "mc" Node.empty [(.post Sample.noAuth Sample.posted, Sample.allTake)]
    Agrees s ∧ (s.records "job").row.isSome ∧
      ((Deed.post Sample.noAuth Sample.posted).after "mc" Sample.allTake s).records "job" =
        s.records "job" := by
  have hmeets : ∀ before d inputs after,
      [(Deed.post Sample.noAuth Sample.posted, Sample.allTake)] = before ++ (d, inputs) :: after →
      d.Meets inputs (afterDeeds "mc" Node.empty before) := by
    intro before d inputs after heq
    rcases List.singleton_eq_append_iff.mp heq with ⟨rfl, hstep⟩ | ⟨-, hnil⟩
    · cases hstep
      intro req hreq _ m hspared
      rcases hspared with ⟨i, hpeer, -⟩ | ⟨hown, -⟩ | ⟨hloc, -⟩
      · cases hpeer
      · cases hown
      · cases hloc
    · cases hnil
  obtain ⟨hpost, -, hdeeds⟩ := recreate_kept_iff "mc"
  refine ⟨(hdeeds _ hmeets).1, rfl, ?_⟩
  refine (hpost _ Sample.noAuth Sample.posted ⟨"job", "alpine", some ["echo"]⟩ _ Sample.allTake rfl
    rfl).mpr (.inr ⟨⟨fun _ _ _ => rfl, fun _ => rfl, nofun⟩, ?_⟩)
  rintro input hinput
  cases hinput
  exact ⟨fun _ _ _ => rfl, fun _ => rfl, nofun⟩

/-- A task that is claimed is posted again, with another image: its row keeps the first image and
stays assigned, every copy of its metadata gets the second, and every copy of its state is queued
again. -/
theorem recreate_changes :
    let s := afterDeeds "mc" Node.empty Sample.postClaim
    let s' := (Deed.post Sample.noAuth Sample.postedAgain).after "mc" Sample.allTake s
    (s'.records "job").row = (s.records "job").row ∧
    (s.records "job").row.map (fun row => (row.image, row.status)) = some ("alpine", .assigned) ∧
    (s.records "job").taskMeta.own.map TaskMeta.image = some "alpine" ∧
    (s'.records "job").taskMeta.own.map TaskMeta.image = some "busybox" ∧
    (∀ i, ((s'.records "job").taskMeta.peers i).map TaskMeta.image = some "busybox") ∧
    (s.records "job").state.own.map TaskState.status = some .assigned ∧
    (s'.records "job").state.own.map TaskState.status = some .queued ∧
    ∀ i, ((s'.records "job").state.peers i).map TaskState.status = some .queued :=
  ⟨rfl, rfl, rfl, rfl, fun _ => rfl, rfl, rfl, fun _ => rfl⟩

end MutualCloud.Control
