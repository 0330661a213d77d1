import MutualCloud.Control.Requeue

/-!
# The versions of a state record

Eight paths write the state record of a job. Five of them read the record and write it back with
the next version: `tryClaimHandler`, `finishHandler`, `releaseHandler`, `forceRequeueHandler` and
`requeueLoop`. The three that create a job write version 1 without a look at what is there, and
`restoreJobsFromDemand` does so for every queued job when the control server starts. On a DHT that
keeps its records the versions of a job grow exactly when no job is created over a record, and no
record with the last version is written again (`versions_grow_iff`).
-/

namespace MutualCloud.Control

open Go KeyedTable Interaction Labelled Store

/-! ## The writers -/

/-- An execution that may write the state of a job: a request, `createTask` for a task that
`--create` names, a start of the control server, or a tick of `requeueLoop`. -/
inductive Writer where
  | create (env : Env) (ns : String) (r : Request CreateTaskReq)
  | flag (ns image : String) (cmd : Strings) (id : String)
  | restart (ns : String)
  | claim (env : Env) (r : Request TryClaimIn)
  | finish (env : Env) (ns : String) (r : Request FinishIn)
  | release (env : Env) (r : Request ReleaseIn)
  | forceRequeue (env : Env) (r : Request Unit)
  | requeue

/-- A control server that starts has nothing in memory. The rows and the records are kept. -/
def Site.rebooted (s : Site) : Site where
  world := { s.world with dirty := [], trigger := false }
  keys k := { s.keys k with loc := none }
  last _ := none

namespace Writer

/-- The code of an execution. -/
def code : Writer → SiteCode Unit
  | create env ns r => do
      let _ ← createTaskHandler env ns r
  | flag ns image cmd id => do
      let _ ← createFromFlag ns image cmd id
  | restart ns => restoreJobsFromDemand ns
  | claim env r => do
      let _ ← Site.lift (tryClaimHandler env r)
  | finish env ns r => do
      let _ ← Site.lift (finishHandler env ns r)
  | release env r => do
      let _ ← Site.lift (releaseHandler env r)
  | forceRequeue env r => do
      let _ ← forceRequeueHandler env r
  | requeue => Site.lift requeueTick

/-- The site in which an execution starts. -/
def start : Writer → Site → Site
  | restart _, s => s.rebooted
  | create _ _ _, s | flag _ _ _ _, s | claim _ _, s | finish _ _ _, s | release _ _, s
  | forceRequeue _ _, s | requeue, s => s

/-- The execution writes the state of a job that it creates. -/
def creates : Writer → Bool
  | create _ _ _ | flag _ _ _ _ | restart _ => true
  | claim _ _ | finish _ _ _ | release _ _ | forceRequeue _ _ | requeue => false

/-- The version that an execution writes over a record. -/
def version (x : Writer) (old : TaskState) : Int :=
  if x.creates then 1 else incr old.version

end Writer

/-- The state record of the job that a step writes. -/
def Site.Op.writesState (id : String) : Site.Op → Option TaskState
  | .base (.putJSON (.state k) st) | .putJSON (.state k) st => if k = id then some st else none
  | .base (.delJSON (.state k)) => if k = id then some default else none
  | _ => none

/-- One execution in a sequence, with the inputs of its steps, in which the DHT answers. -/
structure Turn where
  writer : Writer
  inputs : ℕ → Site.Input
  reliable : ∀ n, Site.Reliable (inputs n)

/-- The steps of a turn, each with the site in which it is made, and the site after it. -/
def Turn.act (t : Turn) (s : Site) : List (Site × Site.Op) × Site :=
  (t.writer.code.trace Site.effect t.inputs (t.writer.start s),
    (t.writer.code.run Site.effect t.inputs (t.writer.start s)).state)

/-- A step on a site writes the state record of the job, where there was one. -/
def Replaces (id : String) (m : Site × Site.Op) (old new : TaskState) : Prop :=
  m.1.world.dht (.state id) = some old ∧ m.2.writesState id = some new

/-- A record that the step replaces has a smaller version than the new one. -/
def Grows (id : String) (m : Site × Site.Op) : Prop :=
  ∀ old new, Replaces id m old new → old.version < new.version

/-- The condition on the write of an execution: over a record it does not create the job, and the
version of the record is not the last one of an `int64`. -/
def WritesBack (id : String) (x : Writer) (m : Site × Site.Op) : Prop :=
  ∀ old new, Replaces id m old new → x.creates = false ∧ old.version < 2 ^ 63 - 1

instance (id : String) : DecidablePred (Grows id) := fun m =>
  decidable_of_iff (∀ old ∈ m.1.world.dht (.state id), ∀ new ∈ m.2.writesState id,
      TaskState.version old < new.version)
    ⟨fun h old new hm => h old hm.1 new hm.2, fun h old hold new hnew => h old new ⟨hold, hnew⟩⟩

instance (id : String) (x : Writer) : DecidablePred (WritesBack id x) := fun m =>
  decidable_of_iff (∀ old ∈ m.1.world.dht (.state id), ∀ new ∈ m.2.writesState id,
      x.creates = false ∧ TaskState.version old < 2 ^ 63 - 1)
    ⟨fun h old new hm => h old hm.1 new hm.2, fun h old hold new hnew => h old new ⟨hold, hnew⟩⟩

/-! ## The paths that create a job -/

/-- A state record that the step writes has version 1. -/
def Fresh (c : Site.Op) : Prop := ∀ id new, c.writesState id = some new → new.version = 1

/-- A step that writes no state record. -/
theorem fresh_of_none {c : Site.Op} (h : ∀ id, c.writesState id = none) : Fresh c := by
  intro id new hnew
  rw [h id] at hnew
  cases hnew

/-- What is published for a task has version 1. -/
theorem publish_fresh (ns id image : String) (command : Strings) :
    PublishSteps Fresh ns id image command where
  time := fresh_of_none fun _ => rfl
  enqueue := fresh_of_none fun _ => rfl
  intn := fresh_of_none fun _ => rfl
  put _ := fresh_of_none fun _ => rfl
  keep _ := fresh_of_none fun _ => rfl
  shard _ _ := fresh_of_none fun _ => rfl
  state now := by
    intro k new hnew
    have hif : (if id = k then some (queuedState id now) else none) = some new := hnew
    split at hif
    · rw [← Option.some.inj hif]
      rfl
    · cases hif

/-- The executions that create jobs write version 1. -/
theorem creates_fresh {x : Writer} (h : x.creates = true) :
    x.code.Always (fun _ _ => True) Fresh := by
  cases x with
  | create env ns r =>
      refine Prog.always_bind ?_ fun _ => trivial
      refine PublishSteps.create_task_handler fun req _ => ⟨publish_fresh ns _ _ _, fun _ => ?_⟩
      exact fresh_of_none fun _ => rfl
  | flag ns image cmd id =>
      refine Prog.always_bind ?_ fun _ => trivial
      exact (publish_fresh ns id image cmd).create_from_flag (fun _ => fresh_of_none fun _ => rfl)
        fun _ => fresh_of_none fun _ => rfl
  | restart ns =>
      refine ⟨fresh_of_none fun _ => rfl, fun result _ => ?_⟩
      cases result with
      | error e => trivial
      | ok jobs => exact Prog.always_forM fun j _ => (publish_fresh ns _ _ _).restore_job
  | claim | finish | release | forceRequeue | requeue => cases h

/-! ## The paths that write a record back -/

/-- A state record that the step writes has the version after the one that is there. -/
def Increments (w : World) (c : Call) : Prop :=
  ∀ id st, (Site.Op.base c).writesState id = some st →
    st.version = incr (stateRecord id w).version

section Increments

variable {w : World}

/-- A step that writes no state record. -/
theorem increments_of_none {c : Call} (h : ∀ id, (Site.Op.base c).writesState id = none) :
    Increments w c := by
  intro id st hst
  rw [h id] at hst
  cases hst

theorem increments_time : Increments w .timeNow := increments_of_none fun _ => rfl

theorem increments_get (k : DhtKey) : Increments w (.getJSON k) := increments_of_none fun _ => rfl

/-- A record with the next version. -/
theorem increments_put {id : String} {st : TaskState}
    (h : st.version = incr (stateRecord id w).version) :
    Increments w (.putJSON (.state id) st) := by
  intro k st' hst
  have hif : (if id = k then some st else none) = some st' := hst
  split at hif
  · next hk =>
      subst hk
      rw [← Option.some.inj hif]
      exact h
  · cases hif

/-- A call of the store writes no record. -/
theorem store_increments {α : Type} (m : PGStore.Method α) :
    (store m).Through effect Reliable Increments w fun _ _ => True := by
  have hsql : (store m).Always (fun _ _ => True) fun c => c.isSql = true :=
    Prog.always_embed (f := Call.sql) (fun _ => rfl) m
  refine Prog.through_of_always (I := fun _ => True) hsql (fun _ _ _ _ _ => trivial) ?_ trivial
  intro c w' hsql _
  cases c with
  | sql => exact increments_of_none fun _ => rfl
  | getJSON | putJSON | delJSON | timeNow | enqueue => cases hsql

/-- A claim writes the next version. -/
theorem claim_increments (env : Env) (r : Request TryClaimIn) :
    (tryClaimHandler env r).Through effect Reliable Increments w fun _ _ => True := by
  unfold tryClaimHandler
  cases tryClaimRequest env r with
  | error reply => trivial
  | ok c =>
      have hassign : ∀ claimed w', (assignJob c claimed).Through effect Reliable Increments w'
          fun _ _ => True := by
        intro claimed w'
        refine Prog.through_bind_any ?_ fun _ w'' => ?_
        · refine Prog.through_bind_state (through_time_now increments_time) fun now => ?_
          refine Prog.through_bind_eq (through_get_json (increments_get _)) ?_
          exact (through_put_json (increments_put rfl)).mono fun _ _ _ => trivial
        · cases claimed with
          | none => trivial
          | some claimed =>
              exact ⟨increments_of_none fun _ => rfl, fun _ _ => trivial⟩
      refine Prog.through_bind_any (store_increments _) fun result w' => ?_
      rcases result with (_ | _ | _ | _ | e) | claimed
      · trivial
      · exact hassign none w'
      · trivial
      · trivial
      · trivial
      · exact hassign (some claimed) w'

/-- A finish writes the next version. -/
theorem finish_increments (env : Env) (ns : String) (r : Request FinishIn) :
    (finishHandler env ns r).Through effect Reliable Increments w fun _ _ => True := by
  unfold finishHandler
  cases finishRequest env r with
  | error reply => trivial
  | ok c =>
      refine Prog.through_bind_any (store_increments _) fun result w' => ?_
      cases result with
      | error e => trivial
      | ok _ =>
          refine Prog.through_bind_any ?_ fun _ _ => trivial
          refine Prog.through_bind_eq (through_get_json (increments_get _)) ?_
          refine Prog.through_bind_state (through_time_now increments_time) fun now => ?_
          refine Prog.through_bind_state (through_put_json (increments_put rfl)) fun _ => ?_
          refine ⟨increments_of_none fun _ => rfl, fun _ _ => ?_⟩
          refine ⟨increments_of_none fun _ => rfl, fun _ _ => ?_⟩
          exact ⟨increments_of_none fun _ => rfl, fun _ _ => trivial⟩

/-- A release writes the next version. -/
theorem release_increments (env : Env) (r : Request ReleaseIn) :
    (releaseHandler env r).Through effect Reliable Increments w fun _ _ => True := by
  unfold releaseHandler
  cases releaseRequest env r with
  | error reply => trivial
  | ok c =>
      have hmirror : (mirrorRelease c).Through effect Reliable Increments w fun _ _ => True := by
        refine Prog.through_bind_state
          (through_del_json (increments_of_none fun _ => rfl)) fun _ => ?_
        refine Prog.through_bind_eq (through_get_json (increments_get _)) ?_
        split
        · refine Prog.through_bind_state (through_time_now increments_time) fun now => ?_
          exact (through_put_json (increments_put rfl)).mono fun _ _ _ => trivial
        · trivial
      refine Prog.through_bind_eq (through_get_json (increments_get _)) ?_
      split
      · trivial
      · split
        · trivial
        · exact Prog.through_bind_any hmirror fun _ _ => trivial

/-- A tick of the requeue loop writes the next version. -/
theorem requeue_increments :
    requeueTick.Through effect Reliable Increments w fun _ _ => True := by
  refine Prog.through_bind_state (through_time_now increments_time) fun now => ?_
  refine Prog.through_bind_any (store_increments _) fun result w' => ?_
  cases result with
  | error e => trivial
  | ok expired =>
      refine Prog.through_forM (I := fun _ => True) trivial fun id w₁ _ => ?_
      refine Prog.through_bind_any (store_increments _) fun result w₂ => ?_
      cases result with
      | error e => trivial
      | ok _ =>
          refine Prog.through_bind_state
            (through_del_json (increments_of_none fun _ => rfl)) fun _ => ?_
          refine Prog.through_bind_any ?_ fun _ _ => ?_
          · refine Prog.through_bind_eq (through_get_json (increments_get _)) ?_
            exact (through_put_json (increments_put rfl)).mono fun _ _ _ => trivial
          · exact ⟨increments_of_none fun _ => rfl, fun _ _ => trivial⟩

end Increments

/-- A state record that the step writes has the version that the execution gives it. -/
def Writer.Numbers (x : Writer) (s : Site) (c : Site.Op) : Prop :=
  ∀ id new, c.writesState id = some new → new.version = x.version (stateRecord id s.world)

section Numbers

variable {s : Site} {x : Writer}

/-- A step that writes no state record. -/
theorem numbers_of_none {c : Site.Op} (h : ∀ id, c.writesState id = none) : x.Numbers s c := by
  intro id new hnew
  rw [h id] at hnew
  cases hnew

/-- The version that an execution writes back. -/
theorem version_of_not_creates (hx : x.creates = false) (old : TaskState) :
    x.version old = incr old.version := by
  unfold Writer.version
  rw [hx]
  rfl

/-- What is written back on the world is written back on the site. -/
theorem numbers_lift (hx : x.creates = false) (c : Call) (s : Site)
    (h : Increments s.world c) : x.Numbers s (.base c) := by
  intro id new hnew
  rw [version_of_not_creates hx]
  exact h id new hnew

/-- A forced requeue writes the next version. -/
theorem force_requeue_numbers (hx : x.creates = false) (env : Env) (r : Request Unit) :
    (forceRequeueHandler env r).Through Site.effect Site.Reliable x.Numbers s fun _ _ => True := by
  unfold forceRequeueHandler
  split
  · trivial
  split
  · trivial
  generalize forceRequeueID r.path = id
  have htime : (Site.lift timeNow).Through Site.effect Site.Reliable x.Numbers s
      fun _ s' => s' = s :=
    Site.through_lift (numbers_lift hx) ⟨increments_time, fun _ _ => rfl⟩
  have hget : (Site.lift (getJSON (.state id))).Through Site.effect Site.Reliable x.Numbers s
      fun v s' => v = stateRecord id s.world ∧ s' = s := by
    refine Site.through_lift (numbers_lift hx) ((through_get_json (increments_get _)).mono ?_)
    intro v w hw
    exact ⟨hw.1, by rw [hw.2]⟩
  have hdel : (Site.lift (delJSON (.lease id))).Through Site.effect Site.Reliable x.Numbers s
      fun _ s' => s' = { s with world := s.world.write (.lease id) (default : TaskLease) } := by
    refine Site.through_lift (numbers_lift hx)
      ((through_del_json (increments_of_none fun _ => rfl)).mono ?_)
    intro _ w hw
    rw [hw]
    rfl
  refine Prog.through_bind_state htime fun now => ?_
  refine Prog.through_bind_eq hget ?_
  split
  · trivial
  refine Prog.through_bind_state hdel fun _ => ⟨?_, fun input _ => ?_⟩
  · -- the deletion of the lease leaves the state record alone
    intro k new hnew
    have hif : (if id = k then some _ else none) = some new := hnew
    split at hif
    · next hk =>
        subst hk
        rw [← Option.some.inj hif, version_of_not_creates hx,
          state_record_write_of_ne (k := .lease id) nofun]
    · cases hif
  · generalize (Site.effect _ input _).1 = result
    cases result with
    | some e => trivial
    | none => exact ⟨numbers_of_none fun _ => rfl, fun _ _ => trivial⟩

/-- Every execution writes the version that it gives. -/
theorem Writer.code_numbers (x : Writer) (s : Site) :
    x.code.Through Site.effect Site.Reliable x.Numbers s fun _ _ => True := by
  have hfresh : x.creates = true → x.code.Through Site.effect Site.Reliable x.Numbers s
      fun _ _ => True := by
    intro hx
    refine Prog.through_of_always (I := fun _ => True) (creates_fresh hx)
      (fun _ _ _ _ _ => trivial) ?_ trivial
    intro c s' hc _ id new hnew
    rw [hc id new hnew]
    unfold Writer.version
    rw [hx]
    rfl
  have hlift : ∀ {α : Type} {p : Code α}, x.creates = false →
      p.Through effect Reliable Increments s.world (fun _ _ => True) →
      (Site.lift p >>= fun _ => (pure () : SiteCode Unit)).Through Site.effect Site.Reliable
        x.Numbers s fun _ _ => True :=
    fun hx hp => Prog.through_bind (Site.through_lift (numbers_lift hx) hp)
  cases x with
  | create | flag | restart => exact hfresh rfl
  | claim env r => exact hlift rfl (claim_increments env r)
  | finish env ns r => exact hlift rfl (finish_increments env ns r)
  | release env r => exact hlift rfl (release_increments env r)
  | forceRequeue env r => exact Prog.through_bind (force_requeue_numbers rfl env r)
  | requeue => exact Site.through_lift (numbers_lift rfl) requeue_increments

end Numbers

/-! ## Growth -/

section Growth

variable {id : String} {s : Site}

/-- Only the last version is not followed by a greater one. -/
theorem lt_incr_iff (v : Int) : v < incr v ↔ v < 2 ^ 63 - 1 := by
  unfold incr
  have hlow : -(2 ^ 63) ≤ Int.bmod (v + 1) (2 ^ 64) := Int.le_bmod (by omega)
  have hhigh : Int.bmod (v + 1) (2 ^ 64) < 2 ^ 63 := Int.bmod_lt (by omega)
  constructor
  · intro h
    omega
  · intro h
    by_cases hv : -(2 ^ 63) ≤ v + 1
    · rw [Int.bmod_eq_of_le (by omega) (by omega)]
      omega
    · omega

/-- What a step on a reliable DHT leaves under the key of the state. -/
theorem state_after (c : Site.Op) {input : Site.Input} (hinput : Site.Reliable input) (s : Site) :
    (Site.effect c input s).2.world.dht (.state id) =
      (c.writesState id).or (s.world.dht (.state id)) := by
  have hput : ∀ (k : DhtKey) (v : k.Value), Function.update s.world.dht k (some v) (.state id) =
      ((Site.Op.putJSON k v).writesState id).or (s.world.dht (.state id)) := by
    intro k v
    by_cases hk : k = .state id
    · subst hk
      simp [Site.Op.writesState]
    · rw [Function.update_of_ne (Ne.symm hk)]
      cases k with
      | state k' =>
          have hid : k' ≠ id := fun heq => hk (congrArg DhtKey.state heq)
          simp [Site.Op.writesState, hid]
      | lease | taskAd | manifestMirror => rfl
  have hreliable : input.dhtFault = false := hinput
  cases c with
  | base c =>
      cases c with
      | putJSON k v =>
          have hbase : (Site.Op.base (.putJSON k v)).writesState id =
              (Site.Op.putJSON k v).writesState id := by cases k <;> rfl
          rw [hbase]
          simp only [Site.effect, effect, hreliable]
          exact hput k v
      | delJSON k =>
          have hbase : (Site.Op.base (.delJSON k)).writesState id =
              (Site.Op.putJSON k k.tombstone).writesState id := by cases k <;> rfl
          rw [hbase]
          simp only [Site.effect, effect, hreliable]
          exact hput k k.tombstone
      | sql | getJSON | timeNow | enqueue => rfl
  | putJSON k v =>
      simp only [Site.effect, hreliable]
      exact hput k v
  | key | intn | announced => rfl
  | listQueued =>
      simp only [Site.effect]
      split <;> rfl

/-- The state record of the job, if there is one, has a positive version. -/
def Counted (id : String) (s : Site) : Prop :=
  ∀ old, s.world.dht (.state id) = some old → 1 ≤ old.version

/-- A write over a counted record makes the version grow exactly when it does not create a job, and
the version is not the last one. -/
theorem grows_iff {x : Writer} {c : Site.Op} (hc : x.Numbers s c) (hs : Counted id s) :
    Grows id (s, c) ↔ WritesBack id x (s, c) := by
  refine forall₂_congr fun old new => forall_congr' fun hreplaces => ?_
  obtain ⟨hold, hnew⟩ := hreplaces
  have hrecord : stateRecord id s.world = old := by
    unfold stateRecord
    have hold : s.world.dht (.state id) = some old := hold
    rw [hold]
    rfl
  have hversion := hc id new hnew
  rw [hrecord] at hversion
  rw [hversion]
  unfold Writer.version
  cases hx : x.creates with
  | true =>
      have hpos := hs old hold
      refine iff_of_false ?_ fun h => nomatch h.1
      show ¬ old.version < 1
      omega
  | false =>
      show old.version < incr old.version ↔ _
      rw [lt_incr_iff]
      exact (and_iff_right rfl).symm

/-- A step that lets the version grow leaves a counted record. -/
theorem Counted.step {x : Writer} {c : Site.Op} {input : Site.Input} (h : Counted id s)
    (hinput : Site.Reliable input) (hc : x.Numbers s c) (hgrows : Grows id (s, c)) :
    Counted id (Site.effect c input s).2 := by
  intro new hnew
  rw [state_after c hinput s] at hnew
  cases hwrites : c.writesState id with
  | none =>
      rw [hwrites] at hnew
      exact h new hnew
  | some st =>
      rw [hwrites] at hnew
      obtain rfl := Option.some.inj hnew
      cases hold : s.world.dht (.state id) with
      | some old =>
          have hpos := h old hold
          have hlt := hgrows old st ⟨hold, hwrites⟩
          omega
      | none =>
          have hrecord : stateRecord id s.world = default := by
            unfold stateRecord
            rw [hold]
            rfl
          rw [hc id st hwrites, hrecord]
          cases hx : x.creates with
          | true => simp [Writer.version, hx]
          | false =>
              rw [version_of_not_creates hx]
              decide

/-- A start of the control server keeps the record. -/
theorem Counted.start (h : Counted id s) (x : Writer) : Counted id (x.start s) := by
  cases x <;> exact h

end Growth

/-- Over a DHT that keeps its records, every write of the state of a job after the first one has a
greater version than the record that it replaces, exactly when every write over a record is of an
execution that creates no job, and the record does not have the last version of an `int64`. -/
theorem versions_grow_iff (id : String) {s : Site} (hnew : s.world.dht (.state id) = none)
    (turns : List Turn) :
    (∀ m ∈ observe Turn.act turns s, Grows id m.2) ↔
      ∀ m ∈ observe Turn.act turns s, WritesBack id m.1.writer m.2 := by
  have hcounted : Counted id s := by
    intro old hold
    rw [hnew] at hold
    cases hold
  have hobserved : ∀ P : Turn → Site × Site.Op → Prop,
      EachMeets Turn.act (fun t s => ∀ m ∈ (t.act s).1, P t m) turns s ↔
        ∀ m ∈ observe Turn.act turns s, P m.1 m.2 := fun P => each_meets_observed
  have hsame : EachMeets Turn.act (fun t s => ∀ m ∈ (t.act s).1, Grows id m) turns s ↔
      EachMeets Turn.act (fun t s => ∀ m ∈ (t.act s).1, WritesBack id t.writer m) turns s := by
    refine each_meets_congr (I := Counted id) ?_ hcounted
    intro t s' hs'
    exact (t.writer.code_numbers _).trace_all_iff (fun s c hc hs => grows_iff hc hs)
      (fun c input s hinput hc hs hgrows => hs.step hinput hc hgrows) t.reliable
      (hs'.start t.writer)
  exact (hobserved fun _ m => Grows id m).symm.trans
    (hsame.trans (hobserved fun t m => WritesBack id t.writer m))

namespace Sample

/-- An execution on a DHT that answers. -/
def turn (x : Writer) : Turn := ⟨x, still, fun _ => rfl⟩

/-- A task is posted and claimed. -/
def postedClaimed : List Turn :=
  [turn (.create noAuth "mc" posted), turn (.claim noAuth claims)]

end Sample

/-- A task is posted and claimed: the claim replaces version 1 by version 2. -/
theorem versions_grow_iff_claimed :
    Site.empty.world.dht (.state "job") = none ∧
    (∃ m ∈ observe Turn.act Sample.postedClaimed Site.empty, ∃ old new,
      Replaces "job" m.2 old new) ∧
    ∀ m ∈ observe Turn.act Sample.postedClaimed Site.empty, Grows "job" m.2 := by
  refine ⟨rfl, ?_, (versions_grow_iff "job" rfl Sample.postedClaimed).mpr ?_⟩
  · exact ⟨_, List.mem_of_getElem? (i := 13) rfl, _, _, rfl, rfl⟩
  · decide +kernel

/-- A task is posted, claimed, and posted again: the second post replaces version 2 by
version 1. -/
theorem version_falls :
    ∃ m ∈ observe Turn.act (Sample.postedClaimed ++ [Sample.turn (.create Sample.noAuth "mc"
      Sample.posted)]) Site.empty, ∃ old new, Replaces "job" m.2 old new ∧
        old.version = 2 ∧ new.version = 1 := by
  exact ⟨_, List.mem_of_getElem? (i := 18) rfl, _, _, ⟨rfl, rfl⟩, rfl, rfl⟩

end MutualCloud.Control
