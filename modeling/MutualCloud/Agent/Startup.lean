import MutualCloud.Agent.Discovery

/-!
# When the control server starts

The control server restores the records of the queued jobs while its announce manager is already
running, and agents go on with their ticks meanwhile. The restoring and the announcing write
different records, so each of them does what it does alone: `ensures_restore` is about
`restoreJobsFromDemand` alone, and `records` is the part of the site that it works on, which the
others leave as it is. `queued_offered` says that the two together are enough. An agent whose tick
begins after the restoring and after an announcement of a queued job is offered the job, as long as
the advertisements of that time have not expired.
-/

namespace MutualCloud.Agent

open Go KeyedTable Interaction Labelled Store Control

/-! ## The records that are restored -/

/-- What `restoreJobsFromDemand` works on: the table, the states, the metadata and the shards. -/
structure Records where
  db : DemandJobs
  state : String → Option TaskState
  taskMeta : String → Dht.Register TaskMeta
  shard : String → ℕ → Dht.Register Dht.TaskIndex

/-- The part of the site that `restoreJobsFromDemand` works on. -/
def records (s : Site) : Records where
  db := s.world.db
  state id := s.world.dht (.state id)
  taskMeta id := s.keys (.taskMeta id)
  shard ns n := s.keys (.indexShard ns n)

section Records

variable (s : Site)

theorem records_meta (id : String) (r : Dht.Register TaskMeta) :
    records { s with keys := Function.update s.keys (.taskMeta id) r } =
      { records s with taskMeta := Function.update (records s).taskMeta id r } := by
  unfold records
  congr 1
  funext id'
  by_cases hid : id' = id
  · subst hid
    simp only [Function.update_self]
  · have hkey : DirKey.taskMeta id' ≠ .taskMeta id := by simpa using hid
    simp only [Function.update_of_ne hid, Function.update_of_ne hkey]

theorem records_shard (ns : String) (n : ℕ) (r : Dht.Register Dht.TaskIndex) :
    records { s with keys := Function.update s.keys (.indexShard ns n) r } =
      { records s with
        shard := Function.update (records s).shard ns
          (Function.update ((records s).shard ns) n r) } := by
  unfold records
  congr 1
  funext ns' n'
  by_cases hns : ns' = ns
  · subst hns
    by_cases hn : n' = n
    · subst hn
      simp only [Function.update_self]
    · have hkey : DirKey.indexShard ns' n' ≠ .indexShard ns' n := by simpa using hn
      simp only [Function.update_self, Function.update_of_ne hn, Function.update_of_ne hkey]
  · have hkey : DirKey.indexShard ns' n' ≠ .indexShard ns n := by simp [hns]
    simp only [Function.update_of_ne hns, Function.update_of_ne hkey]

theorem records_state (id : String) (st : Option TaskState) :
    records { s with world.dht := Function.update s.world.dht (.state id) st } =
      { records s with state := Function.update (records s).state id st } := by
  unfold records
  congr 1
  funext id'
  by_cases hid : id' = id
  · subst hid
    simp only [Function.update_self]
  · have hkey : DhtKey.state id' ≠ .state id := by simpa using hid
    simp only [Function.update_of_ne hid, Function.update_of_ne hkey]

/-- A record that is no state is not among the records. -/
theorem records_put {k : DhtKey} (hk : ∀ id, k ≠ .state id) (v : Option k.Value) :
    records { s with world.dht := Function.update s.world.dht k v } = records s := by
  unfold records
  congr 1
  funext id
  exact Function.update_of_ne (Ne.symm (hk id)) v s.world.dht

/-- A manifest is not among the records. -/
theorem records_manifest (id : String) (r : Dht.Register TaskManifest) :
    records { s with keys := Function.update s.keys (.manifest id) r } = records s := by
  unfold records
  congr 1

end Records

/-! ## The steps of the parts -/

/-- The step leaves the records as they are. -/
abbrev Spared (c : Site.Op) : Prop := Leaves Site.effect records c

/-- The step sees no more than the records. -/
abbrev OnRecords (c : Site.Op) : Prop := SeesOnly Site.effect records c

theorem spared_time : Spared (.base .timeNow) := fun _ _ => rfl

theorem spared_get (k : DhtKey) : Spared (.base (.getJSON k)) := fun _ _ => rfl

theorem spared_put {k : DhtKey} (hk : ∀ id, k ≠ .state id) (v : k.Value) :
    Spared (.base (.putJSON k v)) := by
  intro input s
  simp only [Site.effect, Control.effect]
  split
  · rfl
  · exact records_put s hk _

theorem spared_manifest (id : String) (op : Dht.Op TaskManifest) :
    Spared (.key (.manifest id) op) :=
  fun _ s => records_manifest s id _

/-- A get of the network or of `localStore` changes nothing. -/
theorem spared_shard (ns : String) (n : ℕ) :
    Spared (.key (.indexShard ns n) .getValue) ∧ Spared (.key (.indexShard ns n) .loadLocal) := by
  refine ⟨fun _ s => ?_, fun _ s => ?_⟩ <;>
    exact congrArg records (congrArg (fun keys => { s with keys := keys })
      (Function.update_eq_self _ s.keys))

theorem on_records_meta (id : String) (op : Dht.Op TaskMeta) :
    OnRecords (.key (.taskMeta id) op) := by
  intro input s t h
  have hkey : s.keys (.taskMeta id) = t.keys (.taskMeta id) :=
    congrFun (congrArg Records.taskMeta h) id
  constructor
  · simp only [Site.effect, hkey]
  · simp only [Site.effect, records_meta, hkey, h]

theorem on_records_shard (ns : String) (n : ℕ) (op : Dht.Op Dht.TaskIndex) :
    OnRecords (.key (.indexShard ns n) op) := by
  intro input s t h
  have hkey : s.keys (.indexShard ns n) = t.keys (.indexShard ns n) :=
    congrFun (congrFun (congrArg Records.shard h) ns) n
  constructor
  · simp only [Site.effect, hkey]
  · simp only [Site.effect, records_shard, hkey, h]

theorem on_records_state (id : String) (st : TaskState) :
    OnRecords (.putJSON (.state id) st) := by
  intro input s t h
  simp only [Site.effect]
  split
  · exact ⟨rfl, h⟩
  · simp only [records_state, h, and_self]

theorem on_records_list : OnRecords .listQueued := by
  intro input s t h
  have hdb : s.world.db = t.world.db := congrArg Records.db h
  simp only [Site.effect, hdb]
  split
  · exact ⟨rfl, h⟩
  · exact ⟨rfl, h⟩

/-- The steps by which a job is restored see no more than the records. -/
theorem publish_on_records (ns id image : String) (command : Strings) :
    PublishSteps OnRecords ns id image command where
  time := spared_time.sees_only fun _ _ _ => rfl
  enqueue := Leaves.sees_only (fun _ _ => rfl) fun _ _ _ => rfl
  intn := Leaves.sees_only (fun _ _ => rfl) fun _ _ _ => rfl
  put _ := on_records_meta id _
  keep _ := on_records_meta id _
  state _ := on_records_state id _
  shard n op := on_records_shard ns n op

/-- `restoreJobsFromDemand` restores by these steps. -/
theorem restore_always {P : Site.Op → Prop} {ns : String} (hlist : P .listQueued)
    (hpublish : ∀ id image command, PublishSteps P ns id image command) :
    (restoreJobsFromDemand ns).Always (fun _ _ => True) P := by
  refine ⟨hlist, fun result _ => ?_⟩
  cases result with
  | error e => trivial
  | ok jobs => exact Prog.always_forM fun j _ => (hpublish j.id j.image j.command).restore_job

/-- `handleJob` reads the DHT and the clock. -/
theorem handle_job_always {P : Site.Op → Prop} (hget : ∀ k, P (.base (.getJSON k)))
    (htime : P (.base .timeNow)) (dv : Discoverer) (id : String) (seen : Option Time) :
    (dv.handleJob id seen).Always (fun _ _ => True) P := by
  unfold Discoverer.handleJob
  split
  · trivial
  · refine ⟨hget _, fun st _ => ?_⟩
    show Prog.Always _ _ (if _ then _ else _)
    split
    · trivial
    · refine Prog.always_bind ?_ fun lately => ?_
      · cases seen with
        | none => trivial
        | some t => exact ⟨htime, fun _ _ => trivial⟩
      · split
        · trivial
        · refine Prog.always_bind ⟨hget _, fun _ _ => check_exp_always htime _ _⟩ fun ad => ?_
          cases ad with
          | none => trivial
          | some ad =>
              exact Prog.always_bind ⟨hget _, fun _ _ => check_exp_always htime _ _⟩ fun m =>
                pass_on_always htime id seen ad m

/-- A tick reads the shards, the DHT and the clock. -/
theorem tick_always {P : Site.Op → Prop} {dv : Discoverer}
    (hshard : ∀ n, P (.key (.indexShard dv.ns n) .getValue) ∧
      P (.key (.indexShard dv.ns n) .loadLocal))
    (hget : ∀ k, P (.base (.getJSON k))) (htime : P (.base .timeNow)) (seen : Seen) :
    (dv.tick seen).Always (fun _ _ => True) P := by
  have hscan : ∀ shards ids, (scanShards dv.ns shards ids).Always (fun _ _ => True) P := by
    intro shards
    induction shards with
    | nil => exact fun _ => trivial
    | cons n rest ih =>
        intro ids
        refine Prog.always_bind (Site.get_json_always_of (hshard n).1 (hshard n).2) fun found => ?_
        cases found with
        | error e => exact ih ids
        | ok idx => exact ih _
  have heach : ∀ ids seen, (dv.handleEach ids seen).Always (fun _ _ => True) P := by
    intro ids
    induction ids with
    | nil => exact fun _ => trivial
    | cons id rest ih =>
        intro seen
        exact Prog.always_bind (handle_job_always hget htime dv id (seen id)) fun handled =>
          Prog.always_bind (ih _) fun _ => trivial
  exact Prog.always_bind (hscan _ _) fun ids => heach ids seen

/-- The steps of an announcement satisfy `P`, where the clock is read as `A` wants it: those on the
manifest of the job, the puts of its advertisement and of its mirror, and the record of the time. -/
structure AnnounceSteps (A : (c : Site.Op) → c.Response → Prop) (P : Site.Op → Prop) (cfg : Config)
    (id : String) : Prop where
  time : P (.base .timeNow)
  manifest : ∀ op, P (.key (.manifest id) op)
  ad : ∀ now topic, A (.base .timeNow) now → P (.base (.putJSON (.taskAd cfg.ns id)
    (cfg.adText ⟨id, cfg.ns, topic, cfg.demandURL, now + cfg.ttl⟩)))
  mirror : ∀ now ps, A (.base .timeNow) now → P (.base (.putJSON (.manifestMirror id)
    (cfg.mirrorText ps (now + cfg.ttl))))
  record : ∀ now, P (.announced id now)

/-- `announceOnce` announces by these steps. -/
theorem AnnounceSteps.announce_once {A : (c : Site.Op) → c.Response → Prop} {P : Site.Op → Prop}
    {cfg : Config} {id : String} (h : AnnounceSteps A P cfg id) :
    (announceOnce cfg id).Always A P := by
  have hget : (Site.getJSON (.manifest id)).Always A P :=
    (Site.get_json_always_of (h.manifest _) (h.manifest _)).assume fun _ _ _ => trivial
  have hsettle : ∀ result, (settleManifest id result).Always A P := fun result =>
    (settle_manifest_always h.time (fun _ => h.manifest _) (fun _ => h.manifest _) result).assume
      fun _ _ _ => trivial
  refine Prog.always_bind hget fun result => Prog.always_bind (hsettle result) fun man => ?_
  refine ⟨h.time, fun now hnow => ⟨h.ad now _ hnow, fun _ _ => ⟨h.mirror now _ hnow, ?_⟩⟩⟩
  exact fun _ _ => ⟨h.time, fun now _ => ⟨h.record now, fun _ _ => trivial⟩⟩

/-! ## The restoring -/

/-- The database and the DHT answer. -/
def Answered (input : Site.Input) : Prop := Site.Reliable input ∧ input.fault = none

/-- The queued jobs of the table are in a shard of the network, with a queued state. -/
def Findable (ns : String) (db : DemandJobs) (r : Records) : Prop :=
  ∀ id row, db.lookup id = some row → row.status = .queued →
    (∃ st, r.state id = some st ∧ st.status = .queued) ∧
      ∃ n < taskIndexShardCount, ∃ idx, (r.shard ns n).net = some idx ∧ id ∈ idx.ids

/-- Nothing of the site was put to `localStore`. -/
def LocalKept (s s' : Site) : Prop := ∀ k, (s'.keys k).loc = (s.keys k).loc

theorem local_kept_write (s : Site) (k : DirKey) (v : k.Value) : LocalKept s (s.write k v) := by
  intro k'
  by_cases hk : k' = k
  · subst hk
    simp only [Site.write, Function.update_self]
  · simp only [Site.write, Function.update_of_ne hk]

section Restore

variable {s : Site} {ns : String}

/-- `addToIndex` puts nothing to `localStore` when the DHT answers. -/
theorem ensures_add_to_index_local (id : String) :
    (addToIndex ns id).Ensures Site.effect Site.Reliable s fun _ s' => LocalKept s s' := by
  have henter : ∀ shard idx, (enterShard ns id shard idx).Ensures Site.effect Site.Reliable s
      fun _ s' => LocalKept s s' := by
    intro shard idx
    unfold enterShard
    split
    · exact fun _ => rfl
    · refine Prog.ensures_bind_state Site.ensures_lift_time_now fun now => ?_
      refine (Site.ensures_put_json _ _).mono ?_
      rintro result t ⟨-, rfl⟩
      exact local_kept_write s _ _
  refine Prog.ensures_bind ((Site.ensures_intn _).mono ?_)
  rintro shard t ⟨rfl, -⟩
  refine Prog.ensures_bind ((Site.ensures_get_json _).mono ?_)
  rintro result t ⟨rfl, -⟩
  cases result with
  | ok idx => exact henter shard idx
  | error e => exact henter shard default

/-- Nor does the body of the loop of `restoreJobsFromDemand`. -/
theorem ensures_restore_job_local (j : DBJob) :
    (restoreJob ns j).Ensures Site.effect Site.Reliable s fun _ s' => LocalKept s s' := by
  refine Prog.ensures_bind_eq (Site.ensures_put_json _ _) ?_
  refine Prog.ensures_bind_state Site.ensures_lift_time_now fun now => ?_
  refine Prog.ensures_bind_eq (Site.ensures_put_mirror _ _) ?_
  refine Prog.ensures_bind ((ensures_add_to_index_local j.id).mono ?_)
  intro _ t ht _ _ k
  exact (ht k).trans (local_kept_write s _ _ k)

/-- A listed job is in a shard of the network, when there is nothing in `localStore`. -/
theorem in_shard_of_listed {id : String} (hlocal : ∀ n, (s.keys (.indexShard ns n)).loc = none)
    (h : id ∈ s.listed ns) :
    ∃ n < taskIndexShardCount, ∃ idx, (s.keys (.indexShard ns n)).net = some idx ∧
      id ∈ idx.ids := by
  obtain ⟨n, hn, hid⟩ := Site.mem_listed.mp h
  rw [Site.found, hlocal n, Option.or_none] at hid
  cases hnet : (s.keys (.indexShard ns n)).net with
  | none =>
      rw [hnet] at hid
      cases hid
  | some idx =>
      rw [hnet] at hid
      exact ⟨n, hn, idx, hnet, hid⟩

/-- A control server that has just started makes the queued jobs findable. -/
theorem ensures_restore (hlocal : ∀ n, (s.keys (.indexShard ns n)).loc = none) :
    (restoreJobsFromDemand ns).Ensures Site.effect Answered s
      fun _ s' => Findable ns s.world.db (records s') := by
  intro input hinput
  have hlist : Site.effect .listQueued input s = (.ok (Site.queuedJobs s.world.db), s) := by
    simp only [Site.effect, hinput.2]
  rw [hlist]
  have hloop : ((Site.queuedJobs s.world.db).forM (restoreJob ns)).Ensures Site.effect
      Site.Reliable s fun _ s' =>
        RestoredUpTo ns s (Site.queuedJobs s.world.db) s' ∧ LocalKept s s' := by
    refine Prog.ensures_forM (I := fun before s' => RestoredUpTo ns s before s' ∧ LocalKept s s')
      ⟨⟨rfl, by simp, by simp⟩, fun _ => rfl⟩ ?_
    rintro before j t hj ⟨ht, hkept⟩
    refine ((ensures_restore_job j).and (ensures_restore_job_local j)).mono ?_
    rintro _ t' ⟨hrestored, hkept'⟩
    exact ⟨ht.snoc hj hrestored, fun k => (hkept' k).trans (hkept k)⟩
  refine (hloop.inputs_mono fun _ hinput => hinput.1).mono ?_
  rintro _ s' ⟨hrestored, hkept⟩ id row hrow hqueued
  have hjob : { Stmt.selectJob id row with retryCount := 0 } ∈ Site.queuedJobs s.world.db :=
    Site.mem_queued_jobs.mpr ⟨row, hrow, hqueued, rfl⟩
  refine ⟨(hrestored.published _ hjob row hrow).state, ?_⟩
  exact in_shard_of_listed (fun n => (hkept _).trans (hlocal n))
    ((hrestored.listed id).mpr (.inr ⟨_, hjob, rfl⟩))

end Restore

/-! ## The announcing -/

/-- The record that a put to a key leaves under another. -/
def putAt (k : DhtKey) {k' : DhtKey} (v : k'.Value) : Option k.Value :=
  if h : k' = k then some (h ▸ v) else none

/-- The record that a step puts under a key of the mirror. -/
def puts (k : DhtKey) : Site.Op → Option k.Value
  | .base (.putJSON _ v) | .putJSON _ v => putAt k v
  | .base (.delJSON k') => putAt k k'.tombstone
  | _ => none

theorem update_put_at (dht : Dht) {k k' : DhtKey} (v : k'.Value) :
    Function.update dht k' (some v) k = (putAt k v).or (dht k) := by
  unfold putAt
  by_cases hk : k' = k
  · subst hk
    simp
  · simp [hk, Function.update_of_ne (Ne.symm hk)]

/-- What is under a key after a step, when the DHT answers. -/
theorem found_after (k : DhtKey) (c : Site.Op) {input : Site.Input} (h : Site.Reliable input)
    (s : Site) : (Site.effect c input s).2.world.dht k = (puts k c).or (s.world.dht k) := by
  have hfault : input.dhtFault = false := h
  cases c with
  | base c =>
      cases c with
      | putJSON k' v =>
          simp only [Site.effect, Control.effect, hfault, puts]
          exact update_put_at s.world.dht v
      | delJSON k' =>
          simp only [Site.effect, Control.effect, hfault, puts]
          exact update_put_at s.world.dht k'.tombstone
      | sql | getJSON | timeNow | enqueue => rfl
  | putJSON k' v =>
      simp only [Site.effect, hfault, puts]
      exact update_put_at s.world.dht v
  | listQueued =>
      simp only [Site.effect]
      split <;> rfl
  | key | intn | announced => rfl

/-- Once something was put under a key, there is something that was put. -/
theorem found_put {τ α : Type} [DecidableEq τ] {k : DhtKey}
    {p p' : Pool τ Site.Op Site.Op.Response Site α} {history : List (τ × Site.Event)}
    (hexec : Execution (Pool.Step Site.effect) p history p')
    (hreliable : ∀ l ∈ history, Site.Reliable l.2.input)
    (hput : ∃ l ∈ history, (puts k l.2.call).isSome) :
    ∃ l ∈ history, ∃ v, puts k l.2.call = some v ∧ p'.shared.world.dht k = some v := by
  refine (hexec.restrict hreliable).invariant_history
    (I := fun before q => (∃ l ∈ before, (puts k l.2.call).isSome) →
      ∃ l ∈ before, ∃ v, puts k l.2.call = some v ∧ q.shared.world.dht k = some v) ?_ ?_ hput
  · rintro ⟨l, hl, -⟩
    cases hl
  · rintro before q l q' - ih ⟨hl, _, -, hanswer, -⟩ ⟨x, hx, hsome⟩
    have hafter := found_after k l.2.call hl q.shared
    rw [show Site.effect l.2.call l.2.input q.shared = (l.2.response, q'.shared) from hanswer]
      at hafter
    cases hnew : puts k l.2.call with
    | some v => exact ⟨l, by simp, v, hnew, by rw [hafter, hnew, Option.some_or]⟩
    | none =>
        have hbefore : x ∈ before := by
          rcases List.mem_append.mp hx with hx | hx
          · exact hx
          · rw [List.mem_singleton.mp hx, hnew] at hsome
            cases hsome
        obtain ⟨y, hy, v, hv, hfound⟩ := ih ⟨x, hbefore, hsome⟩
        exact ⟨y, List.mem_append_left _ hy, v, hv, by rw [hafter, hnew, Option.none_or, hfound]⟩

section Announce

variable {cfg : Config} {start : Time} {id : String}

/-- The text is an advertisement of the job that was made at the start or later. -/
def GoodAd (cfg : Config) (start : Time) (id text : String) : Prop :=
  ∃ topic now, start ≤ now ∧
    text = cfg.adText ⟨id, cfg.ns, topic, cfg.demandURL, now + cfg.ttl⟩

/-- The text is a mirror that was made at the start or later. -/
def GoodMirror (cfg : Config) (start : Time) (text : String) : Prop :=
  ∃ ps now, start ≤ now ∧ text = cfg.mirrorText ps (now + cfg.ttl)

/-- What the step puts for the job was made at the start or later. -/
structure PutsGood (cfg : Config) (start : Time) (id : String) (c : Site.Op) : Prop where
  ad : ∀ text, puts (.taskAd cfg.ns id) c = some text → GoodAd cfg start id text
  mirror : ∀ text, puts (.manifestMirror id) c = some text → GoodMirror cfg start text

/-- A step that puts nothing. -/
theorem puts_good_of_none {c : Site.Op} (had : puts (.taskAd cfg.ns id) c = none)
    (hmirror : puts (.manifestMirror id) c = none) : PutsGood cfg start id c where
  ad := fun _ htext => (by rw [had] at htext; cases htext)
  mirror := fun _ htext => (by rw [hmirror] at htext; cases htext)

/-- The clock is not before the start. -/
def NotBefore (start : Time) : (c : Site.Op) → c.Response → Prop
  | .base .timeNow, now => start ≤ now
  | _, _ => True

theorem not_before_of_reading {c : Site.Op} {r : c.Response}
    (h : ∀ now, c.reading r = some now → start ≤ now) : NotBefore start c r := by
  unfold NotBefore
  split
  · exact h _ rfl
  · trivial

/-- An announcement that reads its clock after the start puts good records. -/
theorem announce_puts_good (cfg : Config) (start : Time) (id id' : String) :
    (announceOnce cfg id').Always (NotBefore start) (PutsGood cfg start id) := by
  apply AnnounceSteps.announce_once
  constructor
  case time => exact puts_good_of_none rfl rfl
  case manifest => exact fun _ => puts_good_of_none rfl rfl
  case record => exact fun _ => puts_good_of_none rfl rfl
  case ad =>
    intro now topic hnow
    refine ⟨fun text htext => ?_, fun text htext => ?_⟩
    · simp only [puts, putAt] at htext
      split at htext
      next hkey =>
        cases hkey
        cases htext
        exact ⟨topic, now, hnow, rfl⟩
      next => cases htext
    · cases htext
  case mirror =>
    intro now ps hnow
    refine ⟨fun text htext => ?_, fun text htext => ?_⟩
    · cases htext
    · simp only [puts, putAt] at htext
      split at htext
      next hkey =>
        cases hkey
        cases htext
        exact ⟨ps, now, hnow, rfl⟩
      next => cases htext

/-- An announcement puts an advertisement and a mirror. -/
theorem announce_inevitably (cfg : Config) (id : String) :
    (announceOnce cfg id).Inevitably (fun _ _ => True)
        (fun c => (puts (.taskAd cfg.ns id) c).isSome) ∧
      (announceOnce cfg id).Inevitably (fun _ _ => True)
        (fun c => (puts (.manifestMirror id) c).isSome) := by
  constructor
  · refine Prog.inevitably_bind (fun result => Prog.inevitably_bind (fun man => ?_) _) _
    refine Or.inr fun now _ => Or.inl ?_
    simp [puts, putAt]
  · refine Prog.inevitably_bind (fun result => Prog.inevitably_bind (fun man => ?_) _) _
    refine Or.inr fun now _ => Or.inr fun _ _ => Or.inl ?_
    simp [puts, putAt]

end Announce

/-! ## The tick of an agent -/

section Tick

variable {cfg : Config} {start : Time} {id : String} {n : ℕ}

/-- What the agent finds of the job, and the clock that it reads: the job in a shard, with a queued
state, an advertisement and a mirror from the start or later, which have not expired, half a second
after the last offer. -/
def Finds (cfg : Config) (start : Time) (id : String) (n : ℕ) (last : Option Time) :
    (c : Site.Op) → c.Response → Prop
  | .key (.indexShard ns m) .getValue, r => ns = cfg.ns → m = n → ∃ idx, r = .ok idx ∧ id ∈ idx.ids
  | .base (.getJSON (.state x)), r => x = id → ∃ st, r = some st ∧ st.status = .queued
  | .base (.getJSON (.taskAd ns x)), r =>
      ns = cfg.ns → x = id → ∃ text, r = some text ∧ GoodAd cfg start id text
  | .base (.getJSON (.manifestMirror x)), r =>
      x = id → ∃ text, r = some text ∧ GoodMirror cfg start text
  | .base .timeNow, now => now ≤ start + cfg.ttl ∧ ∀ t, last = some t → second / 2 ≤ now - t
  | _, _ => True

/-- The agent is in the namespace of the control server, and decodes its records: the URL and the
expiry of an advertisement, and the expiry of a mirror. -/
structure Discoverer.Understands (dv : Discoverer) (cfg : Config) : Prop where
  ns : dv.ns = cfg.ns
  ad : ∀ ad, ad.demandURL = cfg.demandURL → ∃ v, dv.decodeAd (cfg.adText ad) = some v ∧
    v.demandURL = cfg.demandURL ∧ v.exp = ad.exp
  mirror : ∀ ps exp, ∃ m, dv.decodeMirror (cfg.mirrorText ps exp) = some m ∧ m.exp = exp

/-- What has not expired is read. -/
theorem returns_fresh {α : Type} {A : (c : Site.Op) → c.Response → Prop} {Q : Option α → Prop}
    {k : DhtKey} {decode : k.Value → Option α} {exp : α → Time}
    (hget : ∀ r, A (.base (.getJSON k)) r → ∃ v, r.bind decode = some v ∧ Q (some v) ∧
      ∀ now, A (.base .timeNow) now → now ≤ exp v) :
    (readFresh k decode exp).Returns A Q := by
  intro r hr
  obtain ⟨v, hv, hQ, hexp⟩ := hget r hr
  show (checkExp exp (r.bind decode)).Returns A Q
  rw [hv]
  intro now hnow
  show Q (if exp v < now then none else some v)
  rw [if_neg (not_lt.mpr (hexp now hnow))]
  exact hQ

variable {dv : Discoverer} {last : Option Time}

/-- The list has the job. -/
theorem returns_list (hn : n < taskIndexShardCount) (hns : dv.ns = cfg.ns) :
    (listFromIndex dv.ns).Returns (Finds cfg start id n last) fun ids => id ∈ ids := by
  have hscan : ∀ shards ids, (n ∈ shards ∨ id ∈ ids) →
      (scanShards dv.ns shards ids).Returns (Finds cfg start id n last) fun ids => id ∈ ids := by
    intro shards
    induction shards with
    | nil =>
        intro ids hids
        exact hids.resolve_left List.not_mem_nil
    | cons m rest ih =>
        intro ids hids
        refine Prog.returns_bind ?_
        intro found hfound
        cases found with
        | ok idx =>
            refine ih _ ?_
            by_cases hm : m = n
            · obtain ⟨idx', hidx, hid⟩ := hfound hns hm
              cases hidx
              exact .inr (List.mem_append_right _ hid)
            · rcases hids with hids | hids
              · exact .inl ((List.mem_cons.mp hids).resolve_left (Ne.symm hm))
              · exact .inr (List.mem_append_left _ hids)
        | error e =>
            have hm : m ≠ n := by
              intro hm
              obtain ⟨idx, hidx, -⟩ := hfound hns hm
              cases hidx
            have hrest : n ∈ rest ∨ id ∈ ids :=
              hids.imp_left fun hmem => (List.mem_cons.mp hmem).resolve_left (Ne.symm hm)
            intro kept _
            cases kept with
            | none => exact ih ids hrest
            | some idx => exact ih _ (hrest.imp_right (List.mem_append_left _))
  exact hscan _ _ (.inl (List.mem_range.mpr hn))

/-- The job is offered. -/
theorem returns_handle_job (hdv : dv.Understands cfg) (hid : id ≠ "") :
    (dv.handleJob id last).Returns (Finds cfg start id n last) fun handled =>
      ∃ offer t, handled.made = some (offer, t) ∧ offer.jobID = id ∧
        offer.demandURL = cfg.demandURL := by
  unfold Discoverer.handleJob
  rw [if_neg hid]
  intro found hfound
  obtain ⟨st, rfl, hst⟩ := hfound rfl
  have hqueued : ¬ (Option.any (fun st : TaskState => decide (st.status ≠ .queued))
      (some st) = true) := by simp [hst]
  show Prog.Returns _ _ (if _ then _ else _)
  rw [if_neg hqueued]
  have hlately : (seenLately last).Returns (Finds cfg start id n last) fun b => b = false := by
    cases last with
    | none => rfl
    | some t =>
        intro now hnow
        exact decide_eq_false (not_lt.mpr (hnow.2 t rfl))
  refine Prog.returns_bind (hlately.mono ?_)
  rintro b rfl
  rw [if_neg Bool.false_ne_true]
  refine Prog.returns_bind ((returns_fresh (Q := fun ad => ∃ v : TaskAd, ad = some v ∧
    v.demandURL = cfg.demandURL) ?_).mono ?_)
  · intro r hr
    obtain ⟨text, rfl, topic, now, hnow, rfl⟩ := hr hdv.ns rfl
    obtain ⟨ad, had, hurl, hexp⟩ := hdv.ad ⟨id, cfg.ns, topic, cfg.demandURL, now + cfg.ttl⟩ rfl
    refine ⟨ad, had, ⟨ad, rfl, hurl⟩, ?_⟩
    intro clock hclock
    rw [hexp]
    exact hclock.1.trans (Int.add_le_add_right hnow _)
  · rintro _ ⟨ad, rfl, hurl⟩
    refine Prog.returns_bind
      ((returns_fresh (Q := fun m => ∃ v : ManifestAd, m = some v) ?_).mono ?_)
    · intro r hr
      obtain ⟨text, rfl, ps, now, hnow, rfl⟩ := hr rfl
      obtain ⟨m, hm, hexp⟩ := hdv.mirror ps (now + cfg.ttl)
      refine ⟨m, hm, ⟨m, rfl⟩, ?_⟩
      intro clock hclock
      rw [hexp]
      exact hclock.1.trans (Int.add_le_add_right hnow _)
    · rintro _ ⟨m, rfl⟩
      intro now _
      exact ⟨_, now, rfl, rfl, hurl⟩

/-- A tick offers the job. -/
theorem returns_tick {seen : Seen} (hdv : dv.Understands cfg) (hid : id ≠ "")
    (hn : n < taskIndexShardCount) :
    (dv.tick seen).Returns (Finds cfg start id n (seen id)) fun result =>
      ∃ o ∈ result.1, o.1.jobID = id ∧ o.1.demandURL = cfg.demandURL := by
  have heach : ∀ ids seen', seen' id = seen id → id ∈ ids →
      (dv.handleEach ids seen').Returns (Finds cfg start id n (seen id)) fun result =>
        ∃ o ∈ result.1, o.1.jobID = id ∧ o.1.demandURL = cfg.demandURL := by
    intro ids
    induction ids with
    | nil =>
        intro seen' _ hmem
        cases hmem
    | cons x rest ih =>
        intro seen' hseen hmem
        by_cases hx : x = id
        · subst hx
          refine Prog.returns_bind ?_
          rw [hseen]
          refine (returns_handle_job hdv hid).mono ?_
          rintro handled ⟨offer, t, hmade, hoffer, hurl⟩
          refine Prog.returns_bind (Prog.returns_of_forall fun later => ?_)
          exact ⟨(offer, t), by simp [hmade], hoffer, hurl⟩
        · refine Prog.returns_bind (Prog.returns_of_forall fun handled => ?_)
          have hmem' : id ∈ rest := (List.mem_cons.mp hmem).resolve_left (Ne.symm hx)
          have hseen' : Function.update seen' x handled.seen id = seen id := by
            rw [Function.update_of_ne (Ne.symm hx), hseen]
          refine Prog.returns_bind ((ih _ hseen' hmem').mono ?_)
          rintro later ⟨o, ho, hoffer⟩
          exact ⟨o, List.mem_append_right _ ho, hoffer⟩
  refine Prog.returns_bind ((returns_list hn hdv.ns).mono ?_)
  intro ids hids
  exact heach ids seen rfl hids

end Tick

/-! ## The parts together -/

/-- What runs when the control server starts. -/
inductive Starting where
  | restore
  | announce (id : String)
  | agent (dv : Discoverer) (seen : Seen)
  | other (p : SiteCode Unit)

/-- The code of a part, with the offers of an agent. -/
def Starting.code (cfg : Config) : Starting → SiteCode (Option (List (Offer × Time)))
  | restore => do
      restoreJobsFromDemand cfg.ns
      pure none
  | announce id => do
      announceOnce cfg id
      pure none
  | agent dv seen => do
      let result ← dv.tick seen
      pure (some result.1)
  | other p => do
      p
      pure none

/-- The parts, all at their start. -/
def starting {τ : Type} (cfg : Config) (kind : τ → Starting) (s : Site) :
    Pool τ Site.Op Site.Op.Response Site (Option (List (Offer × Time))) :=
  ⟨s, fun i => (kind i).code cfg⟩

/-- The step leaves the records, the advertisements and the mirrors as they are. -/
structure Harmless (c : Site.Op) : Prop where
  spared : Spared c
  ad : ∀ ns id, puts (.taskAd ns id) c = none
  mirror : ∀ id, puts (.manifestMirror id) c = none

/-- What the DHT has when the job can be offered. -/
structure Ready (cfg : Config) (start : Time) (id : String) (n : ℕ) (s : Site) : Prop where
  state : ∃ st, s.world.dht (.state id) = some st ∧ st.status = .queued
  shard : ∃ idx, (s.keys (.indexShard cfg.ns n)).net = some idx ∧ id ∈ idx.ids
  ad : ∃ text, s.world.dht (.taskAd cfg.ns id) = some text ∧ GoodAd cfg start id text
  mirror : ∃ text, s.world.dht (.manifestMirror id) = some text ∧ GoodMirror cfg start text

/-- What an agent reads then. -/
theorem Ready.finds {cfg : Config} {start : Time} {id : String} {n : ℕ} {s s' : Site}
    {last : Option Time} {e : Site.Event} (h : Ready cfg start id n s)
    (hanswer : Answers Site.effect s e s') (hreliable : Site.Reliable e.input)
    (hclock : ∀ now, e.call.reading e.response = some now →
      now ≤ start + cfg.ttl ∧ ∀ t, last = some t → second / 2 ≤ now - t) :
    Finds cfg start id n last e.call e.response := by
  obtain ⟨c, input, r⟩ := e
  have hr : (Site.effect c input s).1 = r := congrArg Prod.fst hanswer
  have hfault : input.dhtFault = false := hreliable
  have hget : ∀ k, (Site.effect (.base (.getJSON k)) input s).1 = s.world.dht k := by
    intro k
    simp only [Site.effect, Control.effect, hfault]
    rfl
  cases c with
  | base c =>
      cases c with
      | getJSON k =>
          rw [hget k] at hr
          subst hr
          cases k with
          | state x =>
              rintro rfl
              exact h.state
          | lease x => trivial
          | taskAd ns x =>
              rintro rfl rfl
              exact h.ad
          | manifestMirror x =>
              rintro rfl
              exact h.mirror
      | timeNow => exact hclock r rfl
      | sql | putJSON | delJSON | enqueue => trivial
  | key k op =>
      cases k with
      | indexShard ns m =>
          cases op with
          | getValue =>
              rintro rfl rfl
              obtain ⟨idx, hnet, hmem⟩ := h.shard
              refine ⟨idx, ?_, hmem⟩
              rw [← hr]
              simp only [Site.effect, Dht.effect, Dht.Register.get,
                input.onKey_reliable hreliable, hnet]
          | putValue | loadLocal | storeLocal | timeNow => trivial
      | taskMeta | manifest | index => cases op <;> trivial
  | putJSON | intn | listQueued | announced => trivial

section Start

variable {τ : Type} [DecidableEq τ] {cfg : Config} {kind : τ → Starting} {s : Site} {start : Time}
  {id : String} {i : τ} {history : List (τ × Site.Event)}
  {p : Pool τ Site.Op Site.Op.Response Site (Option (List (Offer × Time)))}

/-- All but the restoring leave the records as they are. -/
theorem starting_spared (hexec : Execution (Pool.Step Site.effect) (starting cfg kind s) history p)
    (hothers : ∀ j q, kind j = .other q → q.Always (fun _ _ => True) Harmless) :
    ∀ l ∈ history, kind l.1 ≠ .restore → Spared l.2.call := by
  intro l hl hkind
  refine (Pool.always_thread (A := fun _ _ => True) (i := l.1) hexec (fun _ _ => trivial) ?_).1
    l.2 hl
  show ((kind l.1).code cfg).Always _ _
  cases hl : kind l.1 with
  | restore => exact absurd hl hkind
  | announce id =>
      refine Prog.always_bind (AnnounceSteps.announce_once ⟨spared_time, spared_manifest id,
        fun _ _ _ => spared_put (fun _ => ?_) _, fun _ _ _ => spared_put (fun _ => ?_) _,
        fun _ _ _ => rfl⟩) fun _ => trivial
      · simp
      · simp
  | agent dv seen =>
      exact Prog.always_bind (tick_always (spared_shard dv.ns) spared_get spared_time seen)
        fun _ => trivial
  | other q =>
      exact Prog.always_bind ((hothers l.1 q hl).mono fun _ h => h.spared) fun _ => trivial

/-- What is put for the job is good, as long as the announcements read their clocks after the
start. -/
theorem starting_puts_good
    (hexec : Execution (Pool.Step Site.effect) (starting cfg kind s) history p)
    (hothers : ∀ j q, kind j = .other q → q.Always (fun _ _ => True) Harmless)
    (hclock : ∀ j x, kind j = .announce x → ∀ e, (j, e) ∈ history →
      NotBefore start e.call e.response) :
    ∀ l ∈ history, PutsGood cfg start id l.2.call := by
  intro l hl
  -- only announcements put these records, and only their clocks matter
  have hquiet : ((kind l.1).code cfg).Always (fun _ _ => True) (PutsGood cfg start id) →
      PutsGood cfg start id l.2.call := fun h =>
    (Pool.always_thread (i := l.1) hexec (fun _ _ => trivial) h).1 l.2 hl
  cases hkind : kind l.1 with
  | restore =>
      apply hquiet
      rw [hkind]
      refine Prog.always_bind (restore_always (puts_good_of_none rfl rfl) fun _ _ _ => ?_) fun _ =>
        trivial
      exact ⟨puts_good_of_none rfl rfl, puts_good_of_none rfl rfl, puts_good_of_none rfl rfl,
        fun _ => puts_good_of_none rfl rfl, fun _ => puts_good_of_none rfl rfl,
        fun _ => puts_good_of_none rfl rfl, fun _ _ => puts_good_of_none rfl rfl⟩
  | announce x =>
      refine (Pool.always_thread (A := NotBefore start) (i := l.1) hexec
        (hclock l.1 x hkind) ?_).1 l.2 hl
      show ((kind l.1).code cfg).Always _ _
      rw [hkind]
      exact Prog.always_bind (announce_puts_good cfg start id x) fun _ => trivial
  | agent dv seen =>
      apply hquiet
      rw [hkind]
      exact Prog.always_bind (tick_always (fun _ => ⟨puts_good_of_none rfl rfl,
        puts_good_of_none rfl rfl⟩) (fun _ => puts_good_of_none rfl rfl)
        (puts_good_of_none rfl rfl) seen) fun _ => trivial
  | other q =>
      apply hquiet
      rw [hkind]
      exact Prog.always_bind ((hothers l.1 q hkind).mono fun _ h =>
        puts_good_of_none (h.ad _ _) (h.mirror _)) fun _ => trivial

/-- Once the restoring has ended, the queued jobs are findable. -/
theorem starting_findable (hlocal : ∀ n, (s.keys (.indexShard cfg.ns n)).loc = none)
    (hexec : Execution (Pool.Step Site.effect) (starting cfg kind s) history p)
    (hanswered : ∀ l ∈ history, Answered l.2.input)
    (hothers : ∀ j q, kind j = .other q → q.Always (fun _ _ => True) Harmless)
    (hrestore : ∀ j, kind j = .restore ↔ j = i) {made : Option (List (Offer × Time))}
    (hend : p.thread i = .done made) : Findable cfg.ns s.world.db (records p.shared) := by
  have hcode : (starting cfg kind s).thread i =
      (restoreJobsFromDemand cfg.ns >>= fun _ => pure none) := by
    show (kind i).code cfg = _
    rw [(hrestore i).mpr rfl]
    rfl
  refine Pool.ensures (Q := fun _ r => Findable cfg.ns s.world.db r) hexec ?_ ?_
    (fun e he => hanswered (i, e) he) ?_ hend
  · rw [hcode]
    exact Prog.always_bind (restore_always on_records_list
      fun id image command => publish_on_records cfg.ns id image command) fun _ => trivial
  · intro l hl hne
    exact starting_spared hexec hothers l hl fun hkind => hne ((hrestore l.1).mp hkind)
  · rw [hcode]
    exact Prog.ensures_bind ((ensures_restore hlocal).mono fun _ _ hfind => hfind)

/-- Once an announcement of the job has ended, there is a good advertisement and a good mirror, now
and later. -/
theorem starting_advertised {j : τ} {later : List (τ × Site.Event)}
    {p' : Pool τ Site.Op Site.Op.Response Site (Option (List (Offer × Time)))}
    (hexec : Execution (Pool.Step Site.effect) (starting cfg kind s) history p)
    (hlater : Execution (Pool.Step Site.effect) p later p')
    (hreliable : ∀ l ∈ history ++ later, Site.Reliable l.2.input)
    (hgood : ∀ l ∈ history ++ later, PutsGood cfg start id l.2.call)
    (hannounce : kind j = .announce id) {made : Option (List (Offer × Time))}
    (hend : p.thread j = .done made) :
    (∃ text, p'.shared.world.dht (.taskAd cfg.ns id) = some text ∧ GoodAd cfg start id text) ∧
      ∃ text, p'.shared.world.dht (.manifestMirror id) = some text ∧
        GoodMirror cfg start text := by
  have hput : ∀ Q : Site.Op → Prop, (announceOnce cfg id).Inevitably (fun _ _ => True) Q →
      ∃ l ∈ history ++ later, Q l.2.call := by
    intro Q hQ
    have hthread : ((starting cfg kind s).thread j).Inevitably (fun _ _ => True) Q := by
      show ((kind j).code cfg).Inevitably _ _
      rw [hannounce]
      exact Prog.inevitably_bind_left hQ _
    obtain ⟨l, hl, -, hcall⟩ := Pool.inevitably hexec (fun _ _ => trivial) hthread hend
    exact ⟨l, List.mem_append_left _ hl, hcall⟩
  obtain ⟨had, hmirror⟩ := announce_inevitably cfg id
  obtain ⟨l, hl, text, htext, hfound⟩ := found_put (hexec.trans hlater) hreliable (hput _ had)
  obtain ⟨l', hl', text', htext', hfound'⟩ :=
    found_put (hexec.trans hlater) hreliable (hput _ hmirror)
  exact ⟨⟨text, hfound, (hgood l hl).ad text htext⟩,
    ⟨text', hfound', (hgood l' hl').mirror text' htext'⟩⟩

/-- The control server starts as a new process, whose node keeps no copies of the shards. Its
restoring is the part `i` of what runs, and all but the restoring, the announcing and the agents
leave the records alone. -/
structure Startup (cfg : Config) (kind : τ → Starting) (i : τ) (s : Site) : Prop where
  fresh : ∀ n, (s.keys (.indexShard cfg.ns n)).loc = none
  restore : ∀ j, kind j = .restore ↔ j = i
  others : ∀ j q, kind j = .other q → q.Always (fun _ _ => True) Harmless

/-- No announcement reads a time before the start, and the agent `a` reads none after the lifetime
of an advertisement from the start, and none within half a second of its last offer of the job. -/
structure OnTime (cfg : Config) (kind : τ → Starting) (start : Time) (a : τ) (last : Option Time)
    (history : List (τ × Site.Event)) : Prop where
  announce : ∀ j x, kind j = .announce x → ∀ e, (j, e) ∈ history →
    NotBefore start e.call e.response
  tick : ∀ e, (a, e) ∈ history → ∀ now, e.call.reading e.response = some now →
    now ≤ start + cfg.ttl ∧ ∀ t, last = some t → second / 2 ≤ now - t

/-- From then on the job can be offered: the records stay as they are, and what is announced later
is good as well. -/
theorem starting_ready {before after : List (τ × Site.Event)} {a j : τ} {last : Option Time}
    {row : Row} {p' : Pool τ Site.Op Site.Op.Response Site (Option (List (Offer × Time)))}
    (hstart : Startup cfg kind i s)
    (hexec : Execution (Pool.Step Site.effect) (starting cfg kind s) before p)
    (hlater : Execution (Pool.Step Site.effect) p after p')
    (hanswered : ∀ l ∈ before ++ after, Answered l.2.input)
    (htime : OnTime cfg kind start a last (before ++ after))
    (hrestored : p.thread i = .done none) (hannounce : kind j = .announce id)
    (hannounced : p.thread j = .done none) (hrow : s.world.db.lookup id = some row)
    (hqueued : row.status = .queued) :
    ∃ n < taskIndexShardCount, ∀ mid rest q, after = mid ++ rest →
      Execution (Pool.Step Site.effect) p mid q → Ready cfg start id n q.shared := by
  have hall := hexec.trans hlater
  have hspared := starting_spared hall hstart.others
  have hgood : ∀ l ∈ before ++ after, PutsGood cfg start id l.2.call :=
    starting_puts_good hall hstart.others htime.announce
  obtain ⟨hstate, n, hn, hshard⟩ := starting_findable hstart.fresh hexec
    (fun l hl => hanswered l (List.mem_append_left _ hl)) hstart.others hstart.restore hrestored id
    row hrow hqueued
  refine ⟨n, hn, fun mid rest q hsplit hmid => ?_⟩
  have hsub : ∀ l ∈ before ++ mid, l ∈ before ++ after := by
    intro l hl
    rw [hsplit, ← List.append_assoc]
    exact List.mem_append_left _ hl
  have hkept : records q.shared = records p.shared := by
    refine Pool.leaves hmid fun l hl => hspared l (hsub l (List.mem_append_right _ hl)) ?_
    intro hkind
    have hi := (hstart.restore l.1).mp hkind
    exact (Pool.ended hmid hrestored).1 l.2 (hi ▸ hl)
  obtain ⟨had, hmirror⟩ := starting_advertised hexec hmid
    (fun l hl => (hanswered l (hsub l hl)).1) (fun l hl => hgood l (hsub l hl)) hannounce
    hannounced
  rw [← hkept] at hstate hshard
  exact ⟨hstate, hshard, had, hmirror⟩

/-- Queued jobs are offered after a restart. While the control server starts, its restoring, any
number of announcements, ticks of agents and other code that leaves their records alone run side by
side, and the database and the DHT answer. An agent whose tick begins after the restoring has ended
and after an announcement of a queued job has ended is offered the job, with the URL of the control
server, whatever the DHT had before: as long as the clock of the agent is no more than the lifetime
of an advertisement after the clocks of the announcements, and half a second after the last offer
of the job. -/
theorem queued_offered {before after : List (τ × Site.Event)} {a j : τ} {dv : Discoverer}
    {seen : Seen} {row : Row} {made : List (Offer × Time)}
    {p' : Pool τ Site.Op Site.Op.Response Site (Option (List (Offer × Time)))}
    (hstart : Startup cfg kind i s)
    (hexec : Execution (Pool.Step Site.effect) (starting cfg kind s) before p)
    (hlater : Execution (Pool.Step Site.effect) p after p')
    (hanswered : ∀ l ∈ before ++ after, Answered l.2.input)
    (htime : OnTime cfg kind start a (seen id) (before ++ after))
    (hrestored : p.thread i = .done none) (hannounce : kind j = .announce id)
    (hannounced : p.thread j = .done none) (hagent : kind a = .agent dv seen)
    (hdv : dv.Understands cfg) (hbegin : ∀ e, (a, e) ∉ before)
    (hend : p'.thread a = .done (some made)) (hrow : s.world.db.lookup id = some row)
    (hqueued : row.status = .queued) (hid : id ≠ "") :
    ∃ o ∈ made, o.1.jobID = id ∧ o.1.demandURL = cfg.demandURL := by
  have hall := hexec.trans hlater
  obtain ⟨n, hn, hready⟩ := starting_ready hstart hexec hlater hanswered htime hrestored hannounce
    hannounced hrow hqueued
  have hcode : (starting cfg kind s).thread a =
      (dv.tick seen >>= fun result => pure (some result.1)) := by
    show (kind a).code cfg = _
    rw [hagent]
    rfl
  have hoffered : ∀ offers, some made = some offers →
      ∃ o ∈ offers, o.1.jobID = id ∧ o.1.demandURL = cfg.demandURL := by
    refine Pool.returns (A := Finds cfg start id n (seen id)) (i := a)
      (Q := fun value => ∀ offers, value = some offers →
        ∃ o ∈ offers, o.1.jobID = id ∧ o.1.demandURL = cfg.demandURL) hall ?_ ?_ hend
    · rw [hcode]
      refine Prog.returns_bind ((returns_tick hdv hid hn).mono ?_)
      rintro result hmade offers hoffers
      cases hoffers
      exact hmade
    · intro e he
      have hafter : (a, e) ∈ after := (List.mem_append.mp he).resolve_left (hbegin e)
      obtain ⟨mid, rest, hsplit⟩ := List.append_of_mem hafter
      rw [hsplit] at hlater
      obtain ⟨q, q', hmid, ⟨_, -, hanswer, -⟩, -⟩ := hlater.split_at
      exact (hready mid _ q hsplit hmid).finds hanswer (hanswered (a, e) he).1 (htime.tick e he)
  exact hoffered made rfl

end Start

namespace Sample

/-- A time as a text of strokes. -/
def strokes (t : Int) : String :=
  String.ofList (if 0 ≤ t then List.replicate t.toNat '+' else List.replicate (-t).toNat '-')

/-- The time that such a text stands for. -/
def counted (text : String) : Int := text.toList.count '+' - text.toList.count '-'

theorem counted_strokes (t : Int) : counted (strokes t) = t := by
  unfold counted strokes
  rw [String.toList_ofList]
  split <;> simp [List.count_replicate] <;> omega

/-- A control server that writes no more than the expiry of its records. -/
def terse : Config :=
  { Control.Sample.setup with
    adText := fun ad => strokes ad.exp
    mirrorText := fun _ exp => strokes exp }

/-- An agent that reads these records. -/
def terseListener : Discoverer where
  ns := "mc"
  decodeAd text := some ⟨"", "mc", "", terse.demandURL, counted text⟩
  decodeMirror text := some ⟨[], counted text⟩

theorem terse_understood : terseListener.Understands terse where
  ns := rfl
  ad ad _ := ⟨_, rfl, rfl, counted_strokes ad.exp⟩
  mirror _ exp := ⟨_, rfl, counted_strokes exp⟩

/-- A table with a queued job, and an empty DHT. -/
def queuedSite : Site :=
  { Site.empty with world.db := (∅ : DemandJobs).insert "job" (Row.fresh Store.Sample.job) }

/-- The control server restores the job and announces it, and an agent has its tick. -/
def restart : Option Bool → Starting
  | none => .restore
  | some false => .announce "job"
  | some true => .agent terseListener fun _ => none

theorem restart_startup : Startup terse restart none queuedSite where
  fresh _ := rfl
  restore j := by rcases j with - | - | - <;> simp [restart]
  others j q hq := by rcases j with - | - | - <;> cases hq

/-- The pool after one of them has run to its end, under inputs that do not fail. -/
def ranAlone (p : Pool (Option Bool) Site.Op Site.Op.Response Site (Option (List (Offer × Time))))
    (i : Option Bool) : List (Option Bool × Site.Event) ×
      Pool (Option Bool) Site.Op Site.Op.Response Site (Option (List (Offer × Time))) :=
  let run := (p.thread i).run Site.effect Control.Sample.still p.shared
  (run.events.map (Prod.mk i), ⟨run.state, Function.update p.thread i (.done run.value)⟩)

section Alone

variable {p : Pool (Option Bool) Site.Op Site.Op.Response Site (Option (List (Offer × Time)))}

theorem ran_alone_execution (i : Option Bool) :
    Execution (Pool.Step Site.effect) p (ranAlone p i).1 (ranAlone p i).2 :=
  Pool.alone rfl _

/-- Its steps are those of the one, and the clock shows 1. -/
theorem ran_alone_steps {i : Option Bool} {l : Option Bool × Site.Event}
    (hl : l ∈ (ranAlone p i).1) : l.1 = i ∧ l.2.input = { now := 1 } ∧
      ∀ now, l.2.call.reading l.2.response = some now → now = 1 := by
  obtain ⟨first, rest, hsplit⟩ := List.append_of_mem hl
  have hexec := ran_alone_execution (p := p) i
  rw [hsplit] at hexec
  obtain ⟨q, q', -, ⟨k, -, hanswer, -⟩, -⟩ := hexec.split_at
  obtain ⟨e, he, rfl⟩ := List.mem_map.mp hl
  obtain ⟨n, hn⟩ := Prog.run_inputs _ _ _ _ e he
  refine ⟨rfl, hn, fun now hread => ?_⟩
  obtain ⟨c, input, r⟩ := e
  cases hn
  cases c with
  | base c =>
      cases c with
      | timeNow =>
          cases hread
          exact (congrArg Prod.fst hanswer).symm
      | sql | getJSON | putJSON | delJSON | enqueue => cases hread
  | key | putJSON | intn | listQueued | announced => cases hread

/-- It has ended with a value of its program. -/
theorem ran_alone_ended {α : Type} {i : Option Bool} {q : SiteCode α}
    {f : α → Option (List (Offer × Time))} (h : p.thread i = q >>= fun x => pure (f x)) :
    ∃ x, (ranAlone p i).2.thread i = .done (f x) := by
  refine ⟨(q.run Site.effect Control.Sample.still p.shared).value, ?_⟩
  show Function.update p.thread i _ i = _
  rw [Function.update_self, h, Prog.run_bind]
  rfl

theorem ran_alone_other {i j : Option Bool} (h : j ≠ i) :
    (ranAlone p i).2.thread j = p.thread j :=
  Function.update_of_ne h _ _

end Alone

end Sample

/-- The job is offered after the restart. -/
theorem queued_offered_restarted :
    let restored := Sample.ranAlone (starting Sample.terse Sample.restart Sample.queuedSite) none
    let announced := Sample.ranAlone restored.2 (some false)
    let ticked := Sample.ranAlone announced.2 (some true)
    ∃ made, ticked.2.thread (some true) = .done (some made) ∧
      ∃ o ∈ made, o.1.jobID = "job" ∧ o.1.demandURL = Sample.terse.demandURL := by
  intro restored announced ticked
  have hbefore := (Sample.ran_alone_execution
    (p := starting Sample.terse Sample.restart Sample.queuedSite) none).trans
    (Sample.ran_alone_execution (p := restored.2) (some false))
  have hafter := Sample.ran_alone_execution (p := announced.2) (some true)
  have hsteps : ∀ l ∈ (restored.1 ++ announced.1) ++ ticked.1, l.2.input = { now := 1 } ∧
      ∀ now, l.2.call.reading l.2.response = some now → now = 1 := by
    intro l hl
    rcases List.mem_append.mp hl with hl | hl
    · rcases List.mem_append.mp hl with hl | hl
      · exact (Sample.ran_alone_steps hl).2
      · exact (Sample.ran_alone_steps hl).2
    · exact (Sample.ran_alone_steps hl).2
  have htime : OnTime Sample.terse Sample.restart 1 (some true) none
      ((restored.1 ++ announced.1) ++ ticked.1) := by
    refine ⟨fun j x _ e he => not_before_of_reading fun now hread => ?_, fun e he now hread => ?_⟩
    · exact ((hsteps _ he).2 now hread).ge
    · rw [(hsteps _ he).2 now hread]
      exact ⟨by decide, fun _ h => (by cases h)⟩
  have hbegin : ∀ e, (some true, e) ∉ restored.1 ++ announced.1 := by
    intro e he
    rcases List.mem_append.mp he with he | he
    · cases (Sample.ran_alone_steps he).1
    · cases (Sample.ran_alone_steps he).1
  have hticked : ∃ result : List (Offer × Time) × Seen,
      ticked.2.thread (some true) = .done (some result.1) := by
    refine Sample.ran_alone_ended (q := Sample.terseListener.tick fun _ => none) ?_
    rw [Sample.ran_alone_other (by decide), Sample.ran_alone_other (by decide)]
    rfl
  have hannounced : ∃ _ : Unit, announced.2.thread (some false) = .done none := by
    refine Sample.ran_alone_ended (q := announceOnce Sample.terse "job") (f := fun _ => none) ?_
    rw [Sample.ran_alone_other (by decide)]
    rfl
  have hrestored : ∃ _ : Unit, restored.2.thread none = .done none :=
    Sample.ran_alone_ended (q := restoreJobsFromDemand "mc") (f := fun _ => none) rfl
  obtain ⟨⟨made, _⟩, hmade⟩ := hticked
  obtain ⟨-, hannounced⟩ := hannounced
  obtain ⟨-, hrestored⟩ := hrestored
  have hrow : Sample.queuedSite.world.db.lookup "job" = some (Row.fresh Store.Sample.job) := rfl
  refine ⟨made, hmade, queued_offered (j := some false) Sample.restart_startup hbefore hafter ?_
    htime ?_ rfl hannounced rfl Sample.terse_understood hbegin hmade hrow rfl (by decide)⟩
  · intro l hl
    rw [(hsteps l hl).1]
    exact ⟨rfl, rfl⟩
  · exact (Sample.ran_alone_other (by decide)).trans hrestored

end MutualCloud.Agent
