import MutualCloud.Control.Requeue

/-!
# After a restart

When the control server restarts it finds its rows in the database and an empty DHT.
`restoreJobsFromDemand` writes the records of the jobs whose rows are queued. The jobs that are
leased at that time have no records, and nothing writes their metadata or enters them into the
index later: once such a lease expires, the requeue loop puts the row back to the queue and writes
the state of the job, and no agent can find it. `queued_visible` says that a queued job stays in
sight otherwise, unless the restart could not list the queued jobs, or a finish that the store
does not accept rewrites the state of a queued job.
-/

namespace MutualCloud.Control

open Go KeyedTable Interaction Labelled Store

/-! ## The services -/

/-- One tick of `reannounceQueuedLoop`. -/
def reannounceTick : SiteCode Unit := do
  match ← Site.listQueued with
  | .error _ => pure ()
  | .ok jobs => jobs.forM fun j => Site.lift (enqueue j.id)

/-- What the control server does after the restart: the ticks of its two loops, and the requests of
agents. -/
inductive Service where
  | requeue
  | reannounce
  | claim (env : Env) (r : Request TryClaimIn)
  | heartbeat (env : Env) (r : Request HbIn)
  | finish (env : Env) (r : Request FinishIn)

/-- The state after a service, whatever answers its steps. -/
def Service.after {ε σ : Type} (effect : Effect Site.Op Site.Op.Response ε σ) (ns : String)
    (a : Service) (inputs : ℕ → ε) (s : σ) : σ :=
  match a with
  | requeue => ((Site.lift requeueTick).run effect inputs s).state
  | reannounce => (reannounceTick.run effect inputs s).state
  | claim env r => ((Site.lift (tryClaimHandler env r)).run effect inputs s).state
  | heartbeat env r => ((Site.lift (heartbeatHandler env r)).run effect inputs s).state
  | finish env r => ((Site.lift (finishHandler env ns r)).run effect inputs s).state

/-- The site after a sequence of services, each with its inputs. -/
def afterServices (ns : String) (s : Site) : List (Service × (ℕ → Site.Input)) → Site
  | [] => s
  | (a, inputs) :: rest => afterServices ns (a.after Site.effect ns inputs s) rest

/-- The site after a restart with the table. -/
def restarted (ns : String) (db : DemandJobs) (inputs : ℕ → Site.Input) : Site :=
  ((restoreJobsFromDemand ns).run Site.effect inputs { Site.empty with world.db := db }).state

/-- Every job whose row is queued can be found, and has its records. -/
def QueuedVisible (ns : String) (s : Site) : Prop :=
  ∀ id row, s.world.db.lookup id = some row → row.status = .queued →
    Discoverable ns id s ∧ Published id row s

/-- The condition on a service: a requeue finds only jobs expired that were queued at the restart,
and a finish for a queued job has a token that is not older than the row's. The second call of a
requeue is its query for expired leases. -/
def Service.Allowed (base : DemandJobs) (inputs : ℕ → Site.Input) (s : Site) : Service → Prop
  | requeue => ∀ id row, s.world.db.lookup id = some row → row.Expired (inputs 1).now →
      ∃ old, base.lookup id = some old ∧ old.status = .queued
  | finish env r => ∀ c, finishRequest env r = .ok c → ∀ row, s.world.db.lookup c.id = some row →
      row.status = .queued → row.Finishable c.agentID c.token
  | reannounce | claim _ _ | heartbeat _ _ => True

/-! ## Requests -/

section Requests

variable {w : World}

/-- The step sends no statement, and leaves the states of the jobs in `J` alone. -/
def Spares (J : String → Prop) (c : Call) : Prop :=
  ¬ c.isSql ∧ ∀ id, J id → ¬ c.writes (.state id)

variable {J : String → Prop}

theorem spares_get (k : DhtKey) : Spares J (.getJSON k) := ⟨nofun, fun _ _ => nofun⟩

theorem spares_time : Spares J .timeNow := ⟨nofun, fun _ _ => nofun⟩

/-- A write to the state of one job is none to the state of another. -/
theorem spares_put_state {id : String} (h : ¬ J id) (st : TaskState) :
    Spares J (.putJSON (.state id) st) := by
  refine ⟨nofun, fun id' hid' hwrites => ?_⟩
  have hkey : DhtKey.state id = .state id' := by simpa [Call.writes] using hwrites
  exact h (DhtKey.state.inj hkey ▸ hid')

/-- A write to another record is none to a state. -/
theorem spares_put {k : DhtKey} (h : ∀ id, k ≠ .state id) (v : k.Value) :
    Spares J (.putJSON k v) := by
  refine ⟨nofun, fun id _ hwrites => h id ?_⟩
  simpa [Call.writes] using hwrites

/-- A delete of another record is no write to a state. -/
theorem spares_del {k : DhtKey} (h : ∀ id, k ≠ .state id) : Spares J (.delJSON k) := by
  refine ⟨nofun, fun id _ hwrites => h id ?_⟩
  simpa [Call.writes] using hwrites

/-- The mirror of a job spares the other jobs. -/
theorem mirror_spares (id : String) : MirrorSteps (Spares fun k => k ≠ id) id where
  time := spares_time
  enqueue := ⟨nofun, fun _ _ => nofun⟩
  get := spares_get
  state := spares_put_state (not_not.mpr rfl)
  lease := spares_put (k := .lease id) fun _ => nofun
  noLease := spares_del fun _ => nofun
  taskAd _ := spares_del fun _ => nofun
  manifest := spares_del fun _ => nofun

/-- Code that spares some jobs leaves the table and the states of these jobs alone. -/
theorem ensures_spared {α : Type} {p : Code α} (h : p.Always (fun _ _ => True) (Spares J)) :
    p.Ensures effect Reliable w fun _ w' =>
      w'.db = w.db ∧ ∀ id, J id → w'.dht (.state id) = w.dht (.state id) := by
  refine Prog.ensures_of_always (I := fun w' : World =>
    w'.db = w.db ∧ ∀ id, J id → w'.dht (.state id) = w.dht (.state id)) h ?_ ⟨rfl, fun _ _ => rfl⟩
  rintro c input w' ⟨hsql, hwrites⟩ ⟨hdb, hdht⟩
  refine ⟨?_, fun id hid => ?_⟩
  · rw [← hdb]
    cases c with
    | sql => exact absurd rfl hsql
    | putJSON | delJSON =>
        simp only [effect]
        split <;> rfl
    | getJSON | timeNow | enqueue => rfl
  · rw [← hdht id hid]
    have hanswer : Answers effect w' ⟨c, input, (effect c input w').1⟩ (effect c input w').2 := rfl
    exact dht_step_of_not_writes hanswer (hwrites id hid)

/-- From one world to the other no job was put to the queue, and the jobs that are queued kept
their state record. -/
structure Quiet (w w' : World) : Prop where
  rows : RowsKept w.db w'.db
  state : ∀ id row, w'.db.lookup id = some row → row.status = .queued →
    w'.dht (.state id) = w.dht (.state id)

theorem Quiet.refl (w : World) : Quiet w w := ⟨RowsKept.refl w.db, fun _ _ _ _ => rfl⟩

/-- The mirror of a job that is not queued may be rewritten. -/
theorem quiet_of_not_queued {id : String} {db : DemandJobs} {w' : World}
    (hkept : RowsKept w.db db) (hnot : NotQueued id db) (hdb : w'.db = db)
    (hdht : ∀ id', id' ≠ id → w'.dht (.state id') = w.dht (.state id')) : Quiet w w' := by
  subst hdb
  refine ⟨hkept, fun id' row hrow hq => hdht id' ?_⟩
  rintro rfl
  exact hnot row hrow hq

/-- A claim puts no job to the queue. -/
theorem ensures_claim_job (hsound : Sound w.db) (c : ClaimCall) :
    (claimJob c).Ensures effect Reliable w fun _ w' => Quiet w w' := by
  have hrows := @PGStore.ensures_rows_kept w.db _ _
    (PGStore.try_claim_always c.id c.agentID c.ttl)
  refine Prog.ensures_bind (ensures_store
    ((hrows.and (PGStore.ensures_try_claim hsound c.agentID c.ttl)).mono ?_))
  rintro result db ⟨hkept, ⟨e, rfl⟩ | hnot⟩
  · exact ⟨hkept, fun _ _ _ _ => rfl⟩
  · refine (ensures_spared ((mirror_spares c.id).answer_claim result)).mono ?_
    rintro _ w' ⟨hdb, hdht⟩
    exact quiet_of_not_queued hkept hnot hdb hdht

/-- A heartbeat writes no state. -/
theorem ensures_heartbeat_job (c : HeartbeatCall) :
    (heartbeatJob c).Ensures effect Reliable w fun _ w' => Quiet w w' := by
  have hstore : (PGStore.heartbeat c.id c.agentID c.token c.ttl).Always (fun _ _ => True)
      fun s => ¬ s.Queues := ⟨nofun, fun _ _ => trivial⟩
  have hmirror : (mirrorHeartbeat c).Always (fun _ _ => True) (Spares fun _ => True) :=
    ⟨spares_get _, fun _ _ => ⟨spares_time, fun _ _ =>
      ⟨spares_put (k := .lease c.id) (fun _ => nofun) _, fun _ _ => trivial⟩⟩⟩
  refine Prog.ensures_bind (ensures_store ((PGStore.ensures_rows_kept hstore).mono ?_))
  intro result db hkept
  cases result with
  | error e => exact ⟨hkept, fun _ _ _ _ => rfl⟩
  | ok _ =>
      refine Prog.ensures_bind ((ensures_spared hmirror).mono ?_)
      rintro _ w' ⟨hdb, hdht⟩
      subst hdb
      exact ⟨hkept, fun id _ _ _ => hdht id trivial⟩

/-- A finish puts no job to the queue. It rewrites the state of its job, so the job must not be
queued, unless the store accepts it. -/
theorem ensures_finish_job (ns : String) (c : FinishCall)
    (haccept : ∀ row, w.db.lookup c.id = some row → row.status = .queued →
      row.Finishable c.agentID c.token) :
    (finishJob ns c).Ensures effect Reliable w fun _ w' => Quiet w w' := by
  have hstore : (PGStore.finish c.id c.agentID c.token c.outcome).Always (fun _ _ => True)
      fun s => ¬ s.Queues := ⟨nofun, fun response _ => by cases response <;> trivial⟩
  have hmirror := (mirror_spares c.id).mirror_finish ns c.outcome
  refine Prog.ensures_bind (ensures_store
    (((PGStore.ensures_rows_kept hstore).and (PGStore.ensures_finish haccept c.outcome)).mono ?_))
  rintro result db ⟨hkept, hresult⟩
  cases result with
  | error e => exact ⟨hkept, fun _ _ _ _ => rfl⟩
  | ok _ =>
      have hnot : NotQueued c.id db := by
        rcases hresult with ⟨e, he⟩ | hnot
        · cases he
        · exact hnot
      refine Prog.ensures_bind ((ensures_spared hmirror).mono ?_)
      rintro _ w' ⟨hdb, hdht⟩
      exact quiet_of_not_queued hkept hnot hdb hdht

end Requests

/-! ## The world after a restart -/

/-- What holds of the world between two services, after a restart with the table `base`: the jobs
are those of `base`, a job that is queued was queued then, and its state is queued. -/
structure Recovered (base : DemandJobs) (w : World) : Prop where
  rows : RowsKept base w.db
  state : ∀ id row, w.db.lookup id = some row → row.status = .queued →
    (stateRecord id w).status = .queued

section Recovery

variable {base : DemandJobs} {w w' : World}

/-- A service that puts no job to the queue. -/
theorem Recovered.of_quiet (h : Recovered base w) (hquiet : Quiet w w') : Recovered base w' := by
  refine ⟨h.rows.trans hquiet.rows, fun id row' hrow' hq => ?_⟩
  obtain ⟨row, hrow, -, -, hqueued⟩ := hquiet.rows id row' hrow'
  unfold stateRecord
  rw [hquiet.state id row' hrow' hq]
  exact h.state id row hrow (hqueued hq)

/-- A job that was queued at the restart is put back to the queue, with its state. -/
theorem Recovered.of_requeue {id : String} {row old : Row} (h : Recovered base w)
    (hold : base.lookup id = some old) (hq : old.status = .queued)
    (hrow : w.db.lookup id = some row) (hdb : w'.db = w.db.insert id row.requeued)
    (hstate : (stateRecord id w').status = .queued)
    (hothers : ∀ id', id' ≠ id → w'.dht (.state id') = w.dht (.state id')) :
    Recovered base w' := by
  refine ⟨?_, ?_⟩
  · intro id' row' hrow'
    rw [hdb] at hrow'
    by_cases hid : id' = id
    · subst hid
      rw [AList.lookup_insert] at hrow'
      obtain rfl := Option.some.inj hrow'
      obtain ⟨old', hold', himage, hcommand, -⟩ := h.rows id' row hrow
      obtain rfl : old' = old := Option.some.inj (hold'.symm.trans hold)
      exact ⟨old', hold', himage, hcommand, fun _ => hq⟩
    · rw [AList.lookup_insert_ne hid] at hrow'
      exact h.rows id' row' hrow'
  · intro id' row' hrow' hq'
    by_cases hid : id' = id
    · subst hid
      exact hstate
    · rw [hdb, AList.lookup_insert_ne hid] at hrow'
      unfold stateRecord
      rw [hothers id' hid]
      exact h.state id' row' hrow' hq'

/-- A tick of the requeue loop, when every job that it finds expired was queued at the restart. -/
theorem Recovered.requeue_tick (h : Recovered base w) {inputs : ℕ → Input}
    (hreliable : ∀ n, Reliable (inputs n))
    (hexpired : ∀ id row, w.db.lookup id = some row → row.Expired (inputs 1).now →
      ∃ old, base.lookup id = some old ∧ old.status = .queued) :
    Recovered base (requeueTick.run effect inputs w).state := by
  cases hfault : (inputs 1).fault with
  | some e =>
      simp only [requeueTick, timeNow, store, PGStore.listExpiredLeases, Prog.perform_bind,
        Prog.run, Prog.call_bind, Prog.embed, effect, Store.effect, hfault]
      exact h
  | none =>
      simp only [requeueTick, timeNow, store, PGStore.listExpiredLeases, Prog.perform_bind,
        Prog.run, Prog.call_bind, Prog.embed, effect, Store.effect, hfault, Stmt.exec]
      let expired := (w.db.entries.filter fun entry => Row.Expired (inputs 1).now entry.2).map
        Sigma.fst
      have hloop : (expired.forM fun id => requeueJob id (inputs 0).now).Ensures effect Reliable w
          fun _ w' => Recovered base w' := by
        refine Prog.ensures_forM (I := fun _ w' => Recovered base w') h ?_
        intro _ id w' hid hw'
        obtain ⟨row, hrow, hexp⟩ := mem_expired_iff.mp hid
        obtain ⟨old, hold, hq⟩ := hexpired id row hrow hexp
        refine Prog.ensures_bind ((ensures_requeue_job (inputs 0).now).mono fun result w₁ hpost =>
          hpost.mono ?_)
        rintro _ w'' (⟨-, row', -, hrow', -, -, hdb, hstate, hothers⟩ | ⟨-, rfl⟩)
        · exact hw'.of_requeue hold hq hrow' hdb hstate hothers
        · exact hw'
      exact hloop.run fun n => hreliable (n + 2)

end Recovery

/-! ## The site after a restart -/

/-- What holds of the site between two services: the world is recovered, and every job that was
queued at the restart is listed, with its metadata. -/
structure Upheld (ns : String) (base : DemandJobs) (s : Site) : Prop where
  reachable : Reachable s.world.db
  recovered : Recovered base s.world
  listed : ∀ id old, base.lookup id = some old → old.status = .queued → id ∈ s.listed ns
  taskMeta : ∀ id old, base.lookup id = some old → old.status = .queued →
    ∃ m, s.found (.taskMeta id) = some m ∧ m.image = old.image ∧ m.command = old.command

section Upheld

variable {ns : String} {base db : DemandJobs} {s : Site} {inputs : ℕ → Site.Input}

/-- The queued jobs of an upheld site are visible. -/
theorem Upheld.visible (h : Upheld ns base s) : QueuedVisible ns s := by
  intro id row hrow hq
  obtain ⟨old, hold, himage, hcommand, hqueued⟩ := h.recovered.rows id row hrow
  obtain ⟨m, hm, himage', hcommand'⟩ := h.taskMeta id old hold (hqueued hq)
  refine ⟨discoverable_iff.mpr (h.listed id old hold (hqueued hq)),
    ⟨m, hm, himage'.trans himage, hcommand'.trans hcommand⟩, ?_⟩
  have hstate := h.recovered.state id row hrow hq
  unfold stateRecord at hstate
  cases hfound : s.world.dht (.state id) with
  | some st =>
      rw [hfound] at hstate
      exact ⟨st, rfl, hstate⟩
  | none =>
      rw [hfound] at hstate
      cases hstate

/-- Code on the world leaves the directory alone. -/
theorem Upheld.of_run (h : Upheld ns base s) {α : Type} (p : Code α)
    (hrecovered : Recovered base (p.run effect (fun n => (inputs n).onWorld) s.world).state) :
    Upheld ns base ((Site.lift p).run Site.effect inputs s).state := by
  rw [Site.lift_run_state]
  exact ⟨run_reachable p _ h.reachable, hrecovered, h.listed, h.taskMeta⟩

/-- A request that puts no job to the queue upholds the site. -/
theorem Upheld.of_quiet (h : Upheld ns base s) (hreliable : ∀ n, Site.Reliable (inputs n))
    {α : Type} {p : Code α}
    (hquiet : p.Ensures effect Reliable s.world fun _ w => Quiet s.world w) :
    Upheld ns base ((Site.lift p).run Site.effect inputs s).state :=
  h.of_run p (h.recovered.of_quiet (hquiet.run fun n => hreliable n))

/-- A tick of the loop that announces queued jobs changes neither the table nor the DHT. -/
theorem ensures_reannounce_tick :
    reannounceTick.Ensures Site.effect Site.Reliable s fun _ s' =>
      ∃ w, s' = { s with world := w } ∧ w.db = s.world.db ∧ w.dht = s.world.dht := by
  intro input _
  have hstate : (Site.effect .listQueued input s).2 = s := by
    simp only [Site.effect]
    split <;> rfl
  rw [hstate]
  cases (Site.effect .listQueued input s).1 with
  | error e => exact ⟨s.world, rfl, rfl, rfl⟩
  | ok jobs =>
      refine Prog.ensures_forM (I := fun _ s' => ∃ w, s' = { s with world := w } ∧
        w.db = s.world.db ∧ w.dht = s.world.dht) ⟨s.world, rfl, rfl, rfl⟩ ?_
      rintro _ j s' - ⟨w, rfl, hdb, hdht⟩
      refine Site.ensures_lift ((ensures_enqueue j.id).mono ?_)
      rintro _ w' ⟨hdb', hdht'⟩
      exact ⟨w', rfl, hdb'.trans hdb, hdht'.trans hdht⟩

/-- A service that is allowed upholds the site. -/
theorem Upheld.step {a : Service} (h : Upheld ns base s)
    (hreliable : ∀ n, Site.Reliable (inputs n)) (hallowed : a.Allowed base inputs s) :
    Upheld ns base (a.after Site.effect ns inputs s) := by
  have hsound : Sound s.world.db := by
    obtain ⟨history, hrun⟩ := h.reachable
    exact hrun.sound
  cases a with
  | requeue => exact h.of_run _ (h.recovered.requeue_tick (fun n => hreliable n) hallowed)
  | reannounce =>
      obtain ⟨w, hw, hdb, hdht⟩ := ensures_reannounce_tick.run hreliable
      show Upheld ns base (reannounceTick.run Site.effect inputs s).state
      rw [hw]
      refine ⟨?_, ?_, h.listed, h.taskMeta⟩
      · show Reachable w.db
        rw [hdb]
        exact h.reachable
      · refine h.recovered.of_quiet ⟨?_, fun id _ _ _ => congrFun hdht (.state id)⟩
        rw [hdb]
        exact RowsKept.refl s.world.db
  | claim env r =>
      refine h.of_quiet hreliable ?_
      unfold tryClaimHandler
      split
      · exact Quiet.refl s.world
      · exact ensures_claim_job hsound _
  | heartbeat env r =>
      refine h.of_quiet hreliable ?_
      unfold heartbeatHandler
      split
      · exact Quiet.refl s.world
      · exact ensures_heartbeat_job _
  | finish env r =>
      refine h.of_quiet hreliable ?_
      unfold finishHandler
      split
      · exact Quiet.refl s.world
      next c hreq => exact ensures_finish_job ns c (hallowed c hreq)

/-- After the restart the site is upheld, if the jobs could be listed or none is queued. -/
theorem upheld_restarted (hreach : Reachable db) (hreliable : ∀ n, Site.Reliable (inputs n))
    (hlist : (inputs 0).fault = none ∨ ∀ id, NotQueued id db) :
    Upheld ns db (restarted ns db inputs) := by
  have hrestore := @restore_run { Site.empty with world.db := db } ns inputs hreliable
  cases hfault : (inputs 0).fault with
  | some e =>
      simp only [hfault] at hrestore
      have hnone : ∀ id, NotQueued id db := hlist.resolve_left (by simp [hfault])
      unfold restarted
      rw [hrestore]
      exact ⟨hreach, ⟨RowsKept.refl db, fun id row hrow hq => absurd hq (hnone id row hrow)⟩,
        fun id old hold hq => absurd hq (hnone id old hold),
        fun id old hold hq => absurd hq (hnone id old hold)⟩
  | none =>
      simp only [hfault] at hrestore
      change RestoredUpTo ns _ (Site.queuedJobs db) (restarted ns db inputs) at hrestore
      have hdb : (restarted ns db inputs).world.db = db := hrestore.db
      -- every queued row is among the jobs that were restored
      have hmem : ∀ id old, db.lookup id = some old → old.status = .queued →
          ∃ j ∈ Site.queuedJobs db, j.id = id := fun id old hold hq =>
        ⟨{ Stmt.selectJob id old with retryCount := 0 },
          Site.mem_queued_jobs.mpr ⟨old, hold, hq, rfl⟩, rfl⟩
      have hpublished : ∀ id old, db.lookup id = some old → old.status = .queued →
          Published id old (restarted ns db inputs) := by
        intro id old hold hq
        obtain ⟨j, hj, rfl⟩ := hmem id old hold hq
        exact hrestore.published j hj old hold
      have hrecovered : Recovered db (restarted ns db inputs).world := by
        refine ⟨by rw [hdb]; exact RowsKept.refl db, fun id row hrow hq => ?_⟩
        rw [hdb] at hrow
        obtain ⟨st, hst, hqueued⟩ := (hpublished id row hrow hq).state
        unfold stateRecord
        rw [hst]
        exact hqueued
      exact ⟨by rw [hdb]; exact hreach, hrecovered,
        fun id old hold hq => (hrestore.listed id).mpr (.inr (hmem id old hold hq)),
        fun id old hold hq => (hpublished id old hold hq).taskMeta⟩

/-- A sequence of services that are allowed upholds the site. -/
theorem Upheld.run {steps : List (Service × (ℕ → Site.Input))} (h : Upheld ns base s)
    (hsteps : ∀ step ∈ steps, ∀ n, Site.Reliable (step.2 n))
    (hallowed : ∀ before a inputs after, steps = before ++ (a, inputs) :: after →
      a.Allowed base inputs (afterServices ns s before)) :
    Upheld ns base (afterServices ns s steps) := by
  induction steps generalizing s with
  | nil => exact h
  | cons step rest ih =>
      obtain ⟨a, inputs⟩ := step
      have hfirst : Upheld ns base (a.after Site.effect ns inputs s) :=
        h.step (hsteps (a, inputs) List.mem_cons_self) (hallowed [] a inputs rest rfl)
      refine ih hfirst (fun step hstep => hsteps step (List.mem_cons_of_mem _ hstep)) ?_
      intro before b inputs' after hrest
      exact hallowed ((a, inputs) :: before) b inputs' after (by rw [hrest]; rfl)

/-- After a restart with any table that the store can reach and an empty DHT, every queued job is
visible after every sequence of services, as long as the services are allowed, and the restart
could list the queued jobs if there were any. -/
theorem queued_visible (hreach : Reachable db) (hreliable : ∀ n, Site.Reliable (inputs n))
    (hlist : (inputs 0).fault = none ∨ ∀ id, NotQueued id db)
    {steps : List (Service × (ℕ → Site.Input))}
    (hsteps : ∀ step ∈ steps, ∀ n, Site.Reliable (step.2 n))
    (hallowed : ∀ before a inputs' after, steps = before ++ (a, inputs') :: after →
      a.Allowed db inputs' (afterServices ns (restarted ns db inputs) before)) :
    QueuedVisible ns (afterServices ns (restarted ns db inputs) steps) := by
  have hstart : Upheld ns db (restarted ns db inputs) := upheld_restarted hreach hreliable hlist
  exact (hstart.run hsteps hallowed).visible

end Upheld

namespace Sample

/-- A table with one job, which is queued. -/
def waiting : DemandJobs := (play [(.createJob Store.Sample.job, { now := 1 })]).2

/-- An agent claims the job. -/
def claimsBy (agentID : String) : Request TryClaimIn :=
  { claims with body := .ok ⟨agentID, 15⟩ }

/-- The clock stands still. -/
def clock (now : Time) (_ : ℕ) : Site.Input := { now := now }

/-- The job is claimed, its lease expires, and it is announced again. -/
def claimExpires : List (Service × (ℕ → Site.Input)) :=
  [(.claim noAuth (claimsBy "a"), clock 2), (.requeue, clock (20 * second)), (.reannounce, clock 5)]

/-- Two leases expire, and the agent of the first one ends the job. -/
def tooLate : List (Service × (ℕ → Site.Input)) :=
  [(.claim noAuth (claimsBy "a"), clock 2), (.requeue, clock (20 * second)),
    (.claim noAuth (claimsBy "b"), clock (21 * second)), (.requeue, clock (40 * second)),
    (.finish noAuth finishes, clock (41 * second))]

end Sample

/-- A job that was queued at the restart is claimed, expires, and is queued and visible again. -/
theorem queued_visible_expired :
    let s := afterServices "mc" (restarted "mc" Sample.waiting Sample.still) Sample.claimExpires
    (s.world.db.lookup "job").map Row.status = some .queued ∧ QueuedVisible "mc" s := by
  have hreach : Reachable Sample.waiting := ⟨_, play_run _⟩
  have hsteps : ∀ step ∈ Sample.claimExpires, ∀ n, Site.Reliable (step.2 n) := by
    intro step hstep n
    simp only [Sample.claimExpires, List.mem_cons, List.not_mem_nil, or_false] at hstep
    rcases hstep with rfl | rfl | rfl <;> rfl
  have hstill : ∀ n, Site.Reliable (Sample.still n) := fun _ => rfl
  refine ⟨by decide +kernel,
    queued_visible hreach hstill (.inl rfl) hsteps fun before a inputs after hsplit => ?_⟩
  cases a with
  | reannounce | claim | heartbeat => trivial
  | finish env r =>
      have hmem : (Service.finish env r, inputs) ∈ Sample.claimExpires := by simp [hsplit]
      simp [Sample.claimExpires] at hmem
  | requeue =>
      obtain rfl : before = [(.claim Sample.noAuth (Sample.claimsBy "a"), Sample.clock 2)] := by
        rcases before with _ | ⟨first, _ | ⟨second, rest⟩⟩
        · cases hsplit
        · cases hsplit
          rfl
        · rcases rest with _ | ⟨third, rest⟩ <;> simp [Sample.claimExpires] at hsplit
      -- the only job was queued at the restart
      have hkeys : (afterServices "mc" (restarted "mc" Sample.waiting Sample.still)
          [(.claim Sample.noAuth (Sample.claimsBy "a"), Sample.clock 2)]).world.db.keys =
            ["job"] := by decide +kernel
      have hqueued : (Sample.waiting.lookup "job").map Row.status = some .queued := by
        decide +kernel
      intro id row hrow _
      have hid : id ∈ ["job"] := by
        rw [← hkeys, ← AList.mem_keys, ← AList.lookup_isSome, hrow]
        rfl
      obtain rfl := List.mem_singleton.mp hid
      exact Option.map_eq_some_iff.mp hqueued

/-- A job is leased at the restart. Once its lease has expired its row is queued, and it has no
metadata and no agent finds it. And a job whose agent ends it two leases too late is queued, while
its state says that it has succeeded. -/
theorem requeued_out_of_sight :
    (let s := afterServices "mc" (restarted "mc" (play Store.Sample.claimed).2 Sample.still)
      [(.requeue, Sample.clock (20 * second))]
    (s.world.db.lookup "job").map Row.status = some .queued ∧
      s.found (.taskMeta "job") = none ∧ ¬ Discoverable "mc" "job" s) ∧
    (let s := afterServices "mc" (restarted "mc" Sample.waiting Sample.still) Sample.tooLate
    (s.world.db.lookup "job").map Row.status = some .queued ∧
      (stateRecord "job" s.world).status = .succeeded) := by
  simp only [discoverable_iff]
  decide +kernel

end MutualCloud.Control
