import MutualCloud.Control.Creation
import MutualCloud.Control.Mirror
import MutualCloud.Control.Recovery

/-!
# The paths that put a job back to the queue

A leased job gets back to the queue when its lease expires (`requeueJob`), when its agent releases
it (`releaseHandler`), or by force (`forceRequeueHandler`). The first updates the row and then the
mirror. The other two only touch the mirror: they report success while the row stays as it is, so
what they promise holds exactly when the row was queued already (`requeue_paths_iff`).
-/

namespace MutualCloud.Control

open Go KeyedTable Interaction Labelled Store

/-! ## Release -/

/-- `releaseIn`. -/
structure ReleaseIn where
  agentID : String
  nonce : String

/-- What `releaseHandler` takes from its request. -/
structure ReleaseCall where
  id : String
  agentID : String
  nonce : String

/-- The checks of `releaseHandler`. -/
def releaseRequest (env : Env) (r : Request ReleaseIn) : Except Reply ReleaseCall :=
  if ¬ requireAuth env r then .error (.error 401 "unauthorized")
  else match r.parts with
    | ["api", "tasks", id, "release"] =>
        match r.body with
        | .error e => .error (.error 400 ("bad json: " ++ e))
        | .ok body => .ok ⟨id, body.agentID, body.nonce⟩
    | _ => .error (.error 400 "bad path")

/-- The state record is one that `releaseHandler` puts back to the queue. -/
def ReleaseCall.Releases (c : ReleaseCall) (st : TaskState) : Prop :=
  st.id ≠ "" ∧ (st.assignedTo = c.agentID ∨ st.status = .assigned ∨ st.status = .running)

instance (c : ReleaseCall) : DecidablePred c.Releases :=
  fun _ => inferInstanceAs (Decidable (_ ∧ _))

/-- The mirror of a released job. -/
def mirrorRelease (c : ReleaseCall) : Code Unit := do
  delJSON (.lease c.id)
  let st ← getJSON (.state c.id)
  if c.Releases st then do
    let now ← timeNow
    putJSON (.state c.id) { st with
      status := .queued
      assignedTo := ""
      updatedAt := now
      version := incr st.version }
  else pure ()

/-- What `releaseHandler` does for a request that passed its checks. -/
def releaseJob (c : ReleaseCall) : Code Reply := do
  let cur ← getJSON (.lease c.id)
  if cur.owner = "" then pure (.error 404 "no lease")
  else if cur.owner ≠ c.agentID ∨ cur.nonce ≠ c.nonce then pure (.error 403 "forbidden")
  else do
    mirrorRelease c
    pure .ok

/-- `releaseHandler`. -/
def releaseHandler (env : Env) (r : Request ReleaseIn) : Code Reply :=
  match releaseRequest env r with
  | .error reply => pure reply
  | .ok c => releaseJob c

/-! ## Force requeue -/

/-- The job that `forceRequeueHandler` takes from its path. -/
def forceRequeueID (path : String) : String :=
  trimSuffix (trimPrefix path "/internal/requeue/") "/force-requeue"

/-- What `forceRequeueHandler` does for a request that passed its checks. -/
def forceRequeueJob (id : String) : SiteCode Reply := do
  let now ← Site.lift timeNow
  let st ← Site.lift (getJSON (.state id))
  if st.id = "" then pure (.error 404 "state not found")
  else do
    Site.lift (delJSON (.lease id))
    match ← Site.putMirror (.state id) { st with
      status := .queued
      assignedTo := ""
      updatedAt := now
      version := incr st.version } with
    | some _ => pure (.error 500 "put state failed")
    | none =>
        Site.lift (enqueue id)
        pure .noContent

/-- `forceRequeueHandler`, whose requests have no body that it reads. -/
def forceRequeueHandler (env : Env) (r : Request Unit) : SiteCode Reply :=
  if ¬ requireAuth env r then pure (.error 401 "unauthorized")
  else if r.method ≠ "POST" then pure (.error 405 "method not allowed")
  else forceRequeueJob (forceRequeueID r.path)

/-! ## What a requeue promises -/

/-- The job waits for an agent: its state record and its row are queued, and everybody can claim
it. -/
structure Requeued (id : String) (w : World) : Prop where
  state : (stateRecord id w).status = .queued
  row : ∃ row, w.db.lookup id = some row ∧ row.status = .queued ∧ row.leaseAgent = none ∧
    row.leaseExpiresAt = none
  claimable : ∀ now, ∃ token, ClaimableByAll w.db id now token

/-- A requeue that leads from `w` to `w'` keeps its promise: when it reports success the job waits
for an agent, and the state record of a job that has ended is not put back to the queue. -/
structure RequeueSound (id : String) (success : Prop) (w w' : World) : Prop where
  requeued : success → Requeued id w'
  ended : ∀ row, w.db.lookup id = some row → row.status.Terminal →
    (stateRecord id w').status = .queued → (stateRecord id w).status = .queued

/-- The row of the job is queued. -/
def RowQueued (id : String) (w : World) : Prop :=
  ∃ row, w.db.lookup id = some row ∧ row.status = .queued

/-- A job whose row and state record are queued waits for an agent. -/
theorem requeued_of_queued {history : List Store.Event} {id : String} {w : World}
    (hrun : Store.Run history w.db) (hrow : RowQueued id w)
    (hstate : (stateRecord id w).status = .queued) : Requeued id w := by
  obtain ⟨row, hlookup, hq⟩ := hrow
  have hw := hrun.sound id row hlookup
  have hclaimable := hw.claimable_of_queued hq
  have hagent := hw.agent_none_of_claimable (hclaimable 0)
  have hexpiry : row.leaseExpiresAt = none := by
    by_contra hsome
    exact hw.expiry.mpr hsome hagent
  refine ⟨hstate, ⟨row, hlookup, hq, hagent, hexpiry⟩, fun now => ⟨row.leaseToken + 1, ?_⟩⟩
  exact claimable_by_all hlookup (hclaimable now) hw.token_nonneg (hrun.token_room hlookup)

/-- A job whose row is queued has not ended. -/
theorem RowQueued.not_ended {id : String} {w : World} (h : RowQueued id w) {row : Row}
    (hrow : w.db.lookup id = some row) : ¬ row.status.Terminal := by
  obtain ⟨row', hrow', hq⟩ := h
  obtain rfl : row' = row := Option.some.inj (hrow'.symm.trans hrow)
  exact fun hterminal => hterminal.ne_queued hq

/-- A requeue that reports success and leaves the row alone keeps its promise exactly when the row
is queued already and the state record comes out queued. -/
theorem requeue_sound_iff {history : List Store.Event} {id : String} {w w' : World}
    {success : Prop} (hrun : Store.Run history w.db) (hsuccess : success) (hdb : w'.db = w.db) :
    RequeueSound id success w w' ↔ RowQueued id w ∧ (stateRecord id w').status = .queued := by
  constructor
  · intro h
    have hrequeued := h.requeued hsuccess
    obtain ⟨row, hrow, hq, -⟩ := hrequeued.row
    rw [hdb] at hrow
    exact ⟨⟨row, hrow, hq⟩, hrequeued.state⟩
  · intro h
    obtain ⟨hrow, hstate⟩ := h
    refine ⟨fun _ => ?_, fun row hlookup hterminal => absurd hterminal (hrow.not_ended hlookup)⟩
    refine requeued_of_queued (hdb ▸ hrun) ?_ hstate
    unfold RowQueued
    rw [hdb]
    exact hrow

/-- A requeue that does nothing and does not report success keeps its promise. -/
theorem requeue_sound_of_refused {id : String} {w w' : World} {success : Prop}
    (hrefused : ¬ success) (hsame : w' = w) : RequeueSound id success w w' := by
  refine ⟨fun hsuccess => absurd hsuccess hrefused, ?_⟩
  rw [hsame]
  exact fun _ _ _ hq => hq

/-! ## Expiry -/

section Paths

variable {id : String} {w : World}

/-- A record that is written is the one that is read. -/
@[simp] theorem state_record_write_self (st : TaskState) :
    stateRecord id (w.write (.state id) st) = st := by
  unfold stateRecord
  rw [w.write_dht_self (.state id)]
  rfl

/-- The state record of a job is untouched by writes to other keys. -/
theorem state_record_write_of_ne {k : DhtKey} (h : DhtKey.state id ≠ k) (v : k.Value) :
    stateRecord id (w.write k v) = stateRecord id w := by
  unfold stateRecord
  rw [World.write_dht_of_ne h]

/-- The mirror of a requeued job. -/
theorem ensures_update_dht_state_queued (now : Time) :
    (updateDHTStateQueued id now).Ensures effect Reliable w fun _ w' =>
      w'.db = w.db ∧ (stateRecord id w').status = .queued ∧
        ∀ id', id' ≠ id → w'.dht (.state id') = w.dht (.state id') := by
  refine Prog.ensures_bind_eq (ensures_get_json _) ?_
  refine (ensures_put_json _ _).mono ?_
  rintro _ w' rfl
  refine ⟨rfl, by rw [state_record_write_self], fun id' hid => ?_⟩
  exact World.write_dht_of_ne (by simpa using hid) _ _

/-- The expiry path requeues the row and mirrors it, or does nothing. -/
theorem ensures_requeue_job (now : Time) :
    (store (PGStore.setStatusQueued id)).Ensures effect Reliable w fun result w₁ =>
      (match result with
        | .error _ => pure ()
        | .ok _ => do
            delJSON (.lease id)
            updateDHTStateQueued id now
            enqueue id : Code Unit).Ensures effect Reliable w₁ fun _ w' =>
        (result = .ok () ∧ ∃ row now, w.db.lookup id = some row ∧ row.Expired now ∧
          row.retryCount + 1 < 2 ^ 31 ∧ w'.db = w.db.insert id row.requeued ∧
          (stateRecord id w').status = .queued ∧
          ∀ id', id' ≠ id → w'.dht (.state id') = w.dht (.state id')) ∨
        (result ≠ .ok () ∧ w' = w) := by
  refine ensures_store (PGStore.ensures_set_status_queued.mono ?_)
  rintro result db (⟨rfl, row, t, hrow, hexpired, hroom, rfl⟩ | ⟨hresult, rfl⟩)
  · refine Prog.ensures_bind_state (ensures_put_json _ _) fun _ => ?_
    refine Prog.ensures_bind ((ensures_update_dht_state_queued now).mono ?_)
    rintro _ w₂ ⟨hdb, hstate, hothers⟩
    refine (ensures_enqueue id).mono ?_
    rintro _ w₃ ⟨hdb', hdht⟩
    refine .inl ⟨rfl, row, t, hrow, hexpired, hroom, hdb'.trans hdb, ?_, fun id' hid => ?_⟩
    · unfold stateRecord
      rw [hdht]
      exact hstate
    · have hne : DhtKey.state id' ≠ .lease id := nofun
      rw [hdht, hothers id' hid]
      exact World.write_dht_of_ne hne _ _
  · cases result with
    | ok => exact absurd rfl hresult
    | error e => exact .inr ⟨hresult, rfl⟩

/-- The expiry path keeps its promise. -/
theorem requeue_job_sound {history : List Store.Event} (hrun : Store.Run history w.db)
    (now : Time) {inputs : ℕ → Input}
    (hreliable : ∀ n, Reliable (inputs n)) :
    RequeueSound id
      (((PGStore.setStatusQueued id).run Store.effect (fun n => (inputs n).toInput) w.db).value =
        .ok ())
      w ((requeueJob id now).run effect inputs w).state := by
  have hpost := (@ensures_requeue_job id w now).run_bind hreliable
  rw [store_run_value] at hpost
  change _ ∧ (∃ row t, _ ∧ _ ∧ _ ∧ ((requeueJob id now).run effect inputs w).state.db = _ ∧ _) ∨
    _ ∧ ((requeueJob id now).run effect inputs w).state = w at hpost
  rcases hpost with ⟨hresult, row, t, hrow, hexpired, -, hdb, hstate, -⟩ | ⟨hresult, hsame⟩
  · have hlookup : ((requeueJob id now).run effect inputs w).state.db.lookup id =
        some row.requeued := by
      rw [hdb]
      exact AList.lookup_insert w.db
    refine ⟨fun _ => ⟨hstate, ⟨_, hlookup, rfl, rfl, rfl⟩,
      fun now => ⟨row.requeued.leaseToken + 1, ?_⟩⟩, ?_⟩
    · have hnonneg : 0 ≤ row.requeued.leaseToken := (hrun.sound id row hrow).token_nonneg
      have hroom := hrun.token_room hrow
      have htoken : row.requeued.leaseToken + 1 < 2 ^ 63 := hroom
      exact claimable_by_all hlookup (row.requeued_claimable now) hnonneg htoken
    · intro row' hrow' hterminal
      obtain rfl : row = row' := Option.some.inj (hrow.symm.trans hrow')
      exact absurd hterminal hexpired.1.not_terminal
  · exact requeue_sound_of_refused hresult hsame

/-! ## Release and force -/

/-- The request names the owner and the nonce of the lease record. -/
def ReleaseCall.Holds (c : ReleaseCall) (cur : TaskLease) : Prop :=
  cur.owner ≠ "" ∧ cur.owner = c.agentID ∧ cur.nonce = c.nonce

/-- A release of the holder rewrites the state record, if it is one to release; any other is
refused. -/
theorem ensures_release_job (c : ReleaseCall) :
    (releaseJob c).Ensures effect Reliable w fun reply w' =>
      (c.Holds (leaseRecord c.id w) ∧ reply = .ok ∧ w'.db = w.db ∧
        (stateRecord c.id w').status =
          if c.Releases (stateRecord c.id w) then .queued else (stateRecord c.id w).status) ∨
      (¬ c.Holds (leaseRecord c.id w) ∧ reply ≠ .ok ∧ w' = w) := by
  refine Prog.ensures_bind ((ensures_get_json _).mono ?_)
  rintro cur w' ⟨hcur, rfl⟩
  obtain rfl : cur = leaseRecord c.id w' := hcur
  split
  next howner => exact .inr ⟨fun hholds => hholds.1 howner, nofun, rfl⟩
  next howner =>
    split
    next hother =>
      refine .inr ⟨?_, nofun, rfl⟩
      rintro ⟨-, hagent, hnonce⟩
      exact hother.elim (absurd hagent) (absurd hnonce)
    next hsame =>
      obtain ⟨hagent, hnonce⟩ := not_or.mp hsame
      have hholds : c.Holds (leaseRecord c.id w') := ⟨howner, not_not.mp hagent, not_not.mp hnonce⟩
      have hkept : stateRecord c.id (w'.write (.lease c.id) (DhtKey.lease c.id).tombstone) =
          stateRecord c.id w' := state_record_write_of_ne (k := .lease c.id) nofun _
      refine Prog.ensures_bind (Prog.ensures_bind_state (ensures_put_json _ _) fun _ => ?_)
      refine Prog.ensures_bind ((ensures_get_json _).mono ?_)
      rintro st w₁ ⟨hst, rfl⟩
      obtain rfl : st = stateRecord c.id w' := hst.trans hkept
      split
      next hreleases =>
        refine Prog.ensures_bind_state ensures_time_now fun now => ?_
        refine (ensures_put_json _ _).mono ?_
        rintro _ w₁ rfl
        exact .inl ⟨hholds, rfl, rfl, by rw [state_record_write_self]⟩
      next hreleases =>
        exact .inl ⟨hholds, rfl, rfl, by rw [hkept]⟩

/-- A forced requeue of a job with a state record rewrites it; any other is refused. -/
theorem ensures_force_requeue_job {s : Site} :
    (forceRequeueJob id).Ensures Site.effect Site.Reliable s fun reply s' =>
      ((stateRecord id s.world).id ≠ "" ∧ reply = .noContent ∧ s'.world.db = s.world.db ∧
        (stateRecord id s'.world).status = .queued) ∨
      ((stateRecord id s.world).id = "" ∧ reply ≠ .noContent ∧ s'.world = s.world) := by
  refine Prog.ensures_bind_state Site.ensures_lift_time_now fun now => ?_
  refine Prog.ensures_bind (Site.ensures_lift ((ensures_get_json _).mono ?_))
  rintro st w ⟨hst, rfl⟩
  obtain rfl : st = stateRecord id s.world := hst
  split
  next hnone => exact .inr ⟨hnone, nofun, rfl⟩
  next hsome =>
    refine Prog.ensures_bind (Site.ensures_lift ((ensures_put_json _ _).mono ?_))
    rintro _ w rfl
    refine Prog.ensures_bind_eq (Site.ensures_put_mirror _ _) ?_
    refine Prog.ensures_bind (Site.ensures_lift ((ensures_enqueue _).mono ?_))
    rintro _ w ⟨hdb, hdht⟩
    refine .inl ⟨hsome, rfl, hdb, ?_⟩
    unfold stateRecord
    rw [hdht]
    exact congrArg TaskState.status (state_record_write_self _)

/-- When a release keeps its promise. -/
theorem release_sound_iff {history : List Store.Event} (hrun : Store.Run history w.db)
    (c : ReleaseCall) {inputs : ℕ → Input} (hreliable : ∀ n, Reliable (inputs n)) :
    RequeueSound c.id (((releaseJob c).run effect inputs w).value = .ok) w
        ((releaseJob c).run effect inputs w).state ↔
      (c.Holds (leaseRecord c.id w) → RowQueued c.id w ∧
        (c.Releases (stateRecord c.id w) ∨ (stateRecord c.id w).status = .queued)) := by
  rcases (ensures_release_job c).run hreliable with
    ⟨hholds, hreply, hdb, hstate⟩ | ⟨hholds, hreply, hsame⟩
  · rw [requeue_sound_iff hrun hreply hdb, hstate]
    by_cases hreleases : c.Releases (stateRecord c.id w) <;> simp [hholds, hreleases]
  · exact iff_of_true (requeue_sound_of_refused hreply hsame) fun h => absurd h hholds

/-- When a forced requeue keeps its promise. -/
theorem force_requeue_sound_iff {history : List Store.Event} {s : Site}
    (hrun : Store.Run history s.world.db) (id : String) {inputs : ℕ → Site.Input}
    (hreliable : ∀ n, Site.Reliable (inputs n)) :
    RequeueSound id (((forceRequeueJob id).run Site.effect inputs s).value = .noContent) s.world
        ((forceRequeueJob id).run Site.effect inputs s).state.world ↔
      ((stateRecord id s.world).id ≠ "" → RowQueued id s.world) := by
  rcases ensures_force_requeue_job.run hreliable with
    ⟨hsome, hreply, hdb, hstate⟩ | ⟨hnone, hreply, hsame⟩
  · rw [requeue_sound_iff hrun hreply hdb]
    simp [hsome, hstate]
  · exact iff_of_true (requeue_sound_of_refused hreply hsame) fun h => absurd hnone h

end Paths

/-- The requeue paths. In every table that the store can reach, and with any records in the DHT,
the expiry path keeps its promise. A release keeps it exactly when it is refused, or
the row is queued already and the state record is queued or released. A forced requeue keeps it
exactly when it is refused, or the row is queued already. -/
theorem requeue_paths_iff {history : List Store.Event} {s : Site}
    (hrun : Store.Run history s.world.db) :
    (∀ (id : String) (now : Time) (inputs : ℕ → Input), (∀ n, Reliable (inputs n)) →
      RequeueSound id
        (((PGStore.setStatusQueued id).run Store.effect (fun n => (inputs n).toInput)
          s.world.db).value = .ok ())
        s.world ((requeueJob id now).run effect inputs s.world).state) ∧
    (∀ (env : Env) (r : Request ReleaseIn) (c : ReleaseCall) (inputs : ℕ → Input),
      releaseRequest env r = .ok c → (∀ n, Reliable (inputs n)) →
      let run := (releaseHandler env r).run effect inputs s.world
      (RequeueSound c.id (run.value = .ok) s.world run.state ↔
        (c.Holds (leaseRecord c.id s.world) →
          RowQueued c.id s.world ∧
            (c.Releases (stateRecord c.id s.world) ∨
              (stateRecord c.id s.world).status = .queued)))) ∧
    (∀ (env : Env) (r : Request Unit) (inputs : ℕ → Site.Input),
      requireAuth env r = true → r.method = "POST" → (∀ n, Site.Reliable (inputs n)) →
      let id := forceRequeueID r.path
      let run := (forceRequeueHandler env r).run Site.effect inputs s
      (RequeueSound id (run.value = .noContent) s.world run.state.world ↔
        ((stateRecord id s.world).id ≠ "" → RowQueued id s.world))) := by
  refine ⟨?_, ?_, ?_⟩
  · intro id now inputs hreliable
    exact requeue_job_sound hrun now hreliable
  · intro env r c inputs hreq hreliable run
    have hrelease : run = (releaseJob c).run effect inputs s.world := by
      show (releaseHandler env r).run effect inputs s.world = _
      rw [releaseHandler, hreq]
    rw [hrelease]
    exact release_sound_iff hrun c hreliable
  · intro env r inputs hauth hmethod hreliable id run
    have hforce : run = (forceRequeueJob id).run Site.effect inputs s := by
      show (forceRequeueHandler env r).run Site.effect inputs s = _
      rw [forceRequeueHandler, if_neg (by simp [hauth]), if_neg (by simp [hmethod])]
    rw [hforce]
    exact force_requeue_sound_iff hrun id hreliable

namespace Sample

/-- The sample job is leased to the agent `a`, and the DHT is empty. -/
def leased : Site := { Site.empty with world.db := (play Store.Sample.claimed).2 }

/-- The lease has run out. -/
def late (_ : ℕ) : Input := { now := 20000000000 }

end Sample

/-- Once its lease has run out, the sample job is put back to the queue. -/
theorem requeue_paths_iff_expired :
    ((PGStore.setStatusQueued "job").run Store.effect (fun n => (Sample.late n).toInput)
      Sample.leased.world.db).value = .ok () ∧
    Requeued "job"
      ((requeueJob "job" 20000000000).run effect Sample.late Sample.leased.world).state := by
  have hrun : Store.Run (play Store.Sample.claimed).1 Sample.leased.world.db :=
    play_run Store.Sample.claimed
  have hsuccess : ((PGStore.setStatusQueued "job").run Store.effect
      (fun n => (Sample.late n).toInput) Sample.leased.world.db).value = .ok () := by
    decide +kernel
  have hpaths := requeue_paths_iff hrun
  exact ⟨hsuccess, (hpaths.1 "job" 20000000000 Sample.late fun _ => rfl).requeued hsuccess⟩

namespace Sample

/-- The agent `a` claims the job. -/
def claims : Request TryClaimIn where
  method := "POST"
  path := "/api/tasks/job/try-claim"
  header _ := ""
  body := .ok ⟨"a", 15⟩

/-- The agent `a` gives the job back. -/
def releases : Request ReleaseIn where
  method := "POST"
  path := "/api/tasks/job/release"
  header _ := ""
  body := .ok ⟨"a", ""⟩

/-- The agent `a` ends the job. -/
def finishes : Request FinishIn where
  method := "POST"
  path := "/jobs/job/finish"
  header name := if name = "X-Agent-ID" then "a" else "1"
  body := .ok ⟨"succeeded", none, none, "cid"⟩

/-- Somebody puts the job back to the queue by force. -/
def forces : Request Unit where
  method := "POST"
  path := "/internal/requeue/job/force-requeue"
  header _ := ""
  body := .ok ()

/-- The agent `a` has claimed it. -/
def assignedWorld : World :=
  ((tryClaimHandler noAuth claims).run effect (fun _ => { now := 2 }) postedSite.world).state

/-- The agent `a` has ended it. -/
def endedWorld : World :=
  ((finishHandler noAuth "mc" finishes).run effect (fun _ => { now := 3 }) assignedWorld).state

end Sample

/-- The agent releases its job, and the row stays assigned to it. The agent ends its job, and a
forced requeue shows the job as queued. Both requests succeed. -/
theorem requeued_in_mirror_only :
    (let run := (releaseHandler Sample.noAuth Sample.releases).run effect (fun _ => { now := 4 })
      Sample.assignedWorld
    run.value = .ok ∧ (stateRecord "job" run.state).status = .queued ∧
      (run.state.db.lookup "job").map Row.status = some .assigned) ∧
    (let run := (forceRequeueHandler Sample.noAuth Sample.forces).run Site.effect
      (fun _ => { now := 4 }) { Sample.postedSite with world := Sample.endedWorld }
    run.value = .noContent ∧ (stateRecord "job" Sample.endedWorld).status = .succeeded ∧
      (stateRecord "job" run.state.world).status = .queued ∧
      (run.state.world.db.lookup "job").map Row.status = some .succeeded) := by
  decide +kernel

end MutualCloud.Control
