import MutualCloud.Control.Restart

/-!
# The token in the lease record

A claim writes the fencing token of the row to the lease record of the job, as its version. A
finish, a release and a requeue delete the record. A heartbeat writes the record back with the next
version, while the token of the row stays. So the record carries the token, in every state of every
sequence of these executions, exactly when no heartbeat takes effect, but for one case: after a
release the row is still leased and the record is empty, and a heartbeat writes version 1, which is
the token of the first claim (`lease_record_fenced_iff`).
-/

namespace MutualCloud.Control

open Go KeyedTable Interaction Labelled Store

/-! ## Executions -/

/-- An execution that may write the lease record of a job: a request of an agent, or a tick of
`requeueLoop`. -/
inductive LeaseExec where
  | claim (env : Env) (r : Request TryClaimIn)
  | heartbeat (env : Env) (r : Request HbIn)
  | finish (env : Env) (ns : String) (r : Request FinishIn)
  | release (env : Env) (r : Request ReleaseIn)
  | requeue

/-- The code of an execution. -/
def LeaseExec.code : LeaseExec → Code Unit
  | claim env r => do
      let _ ← tryClaimHandler env r
  | heartbeat env r => do
      let _ ← heartbeatHandler env r
  | finish env ns r => do
      let _ ← finishHandler env ns r
  | release env r => do
      let _ ← releaseHandler env r
  | requeue => requeueTick

/-- One execution in a sequence, with the inputs of its steps, in which the DHT answers. -/
structure LeaseTurn where
  exec : LeaseExec
  inputs : ℕ → Input
  reliable : ∀ n, Reliable (inputs n)

/-- The worlds that a turn goes through, and the world after it. -/
def LeaseTurn.act (t : LeaseTurn) (w : World) : List World × World :=
  (t.exec.code.visited effect t.inputs w, (t.exec.code.run effect t.inputs w).state)

/-- If the lease record of the job has an owner and the row is leased, then the owner is the agent
of the row, and the version is its token. -/
def Fenced (id : String) (w : World) : Prop :=
  ∀ row agentID, w.db.lookup id = some row → row.leaseAgent = some agentID →
    (leaseRecord id w).owner ≠ "" →
      (leaseRecord id w).owner = agentID ∧ (leaseRecord id w).version = row.leaseToken

/-- The condition on a heartbeat, of the world in which it starts and the input of its statement: if
it takes effect, it finds no owner in the lease record, and the first token in the row. -/
def HeartbeatCall.Fits (c : HeartbeatCall) (input : Store.Input) (w : World) : Prop :=
  input.fault = none → ∀ row, w.db.lookup c.id = some row → row.HeldBy c.agentID c.token →
    (leaseRecord c.id w).owner = "" ∧ row.leaseToken = 1

/-- The condition on a turn is that on the heartbeats for the job. The first call of a heartbeat is
its statement. -/
def LeaseTurn.Fits (id : String) (t : LeaseTurn) (w : World) : Prop :=
  match t.exec with
  | .heartbeat env r => ∀ c, heartbeatRequest env r = .ok c → c.id = id →
      c.Fits (t.inputs 0).toInput w
  | .claim _ _ | .finish _ _ _ | .release _ _ | .requeue => True

/-! ## Steps that leave the lease alone -/

section Keeps

variable {id : String} {w w' : World}

/-- The row of the job and its lease record are the same in the two worlds. -/
structure SameLease (id : String) (w w' : World) : Prop where
  row : w'.db.lookup id = w.db.lookup id
  record : leaseRecord id w' = leaseRecord id w

/-- The step writes neither the row of the job nor its lease record. -/
def Keeps (id : String) (c : Call) : Prop :=
  ¬ c.writes (.lease id) ∧ ∀ stmt, c = .sql stmt → stmt.target ≠ some id

/-- A step that does not write them leaves the row and the lease record as they are. -/
theorem same_lease_step {c : Call} (hc : Keeps id c) (input : Input) (w : World) :
    SameLease id w (effect c input w).2 := by
  obtain ⟨hwrites, hstmt⟩ := hc
  refine ⟨?_, ?_⟩
  · cases c with
    | sql stmt =>
        have hrow := row_step (effect_step stmt input.toInput w.db) id
        exact hrow.eq_of_target_ne (hstmt stmt rfl)
    | putJSON | delJSON =>
        simp only [effect]
        split <;> rfl
    | getJSON | timeNow | enqueue => rfl
  · have hanswer : Answers effect w ⟨c, input, (effect c input w).1⟩ (effect c input w).2 := rfl
    unfold leaseRecord
    rw [dht_step_of_not_writes hanswer hwrites]

/-- A write to another key leaves the lease as it is. -/
theorem same_lease_write {k : DhtKey} (h : DhtKey.lease id ≠ k) (v : k.Value) (w : World) :
    SameLease id w (w.write k v) := by
  refine ⟨rfl, ?_⟩
  unfold leaseRecord
  rw [World.write_dht_of_ne h]

theorem SameLease.refl (id : String) (w : World) : SameLease id w w := ⟨rfl, rfl⟩

theorem SameLease.trans {w₀ w₁ w₂ : World} (h : SameLease id w₀ w₁) (h' : SameLease id w₁ w₂) :
    SameLease id w₀ w₂ :=
  ⟨h'.row.trans h.row, h'.record.trans h.record⟩

/-- The property speaks of the row and the lease record only. -/
theorem Fenced.of_same (h : Fenced id w) (hsame : SameLease id w w') : Fenced id w' := by
  unfold Fenced
  rw [hsame.row, hsame.record]
  exact h

/-- Code that leaves the lease alone. -/
theorem through_kept {α : Type} {p : Code α} (hp : p.Always (fun _ _ => True) (Keeps id))
    (hw : Fenced id w) :
    p.Through effect Reliable (fun w _ => Fenced id w) w fun _ w' => SameLease id w w' := by
  refine Prog.through_of_always (I := SameLease id w) hp ?_ ?_ (SameLease.refl id w)
  · intro c input w' hc hw'
    exact hw'.trans (same_lease_step hc input w')
  · intro c w' _ hw'
    exact hw.of_same hw'

theorem keeps_time : Keeps id .timeNow := ⟨nofun, nofun⟩

theorem keeps_enqueue (k : String) : Keeps id (.enqueue k) := ⟨nofun, nofun⟩

theorem keeps_get (k : DhtKey) : Keeps id (.getJSON k) := ⟨nofun, nofun⟩

/-- A write to another key. -/
theorem keeps_put {k : DhtKey} (h : k ≠ .lease id) (v : k.Value) : Keeps id (.putJSON k v) :=
  ⟨by simpa [Call.writes] using h, nofun⟩

/-- A delete of another key. -/
theorem keeps_del {k : DhtKey} (h : k ≠ .lease id) : Keeps id (.delJSON k) :=
  ⟨by simpa [Call.writes] using h, nofun⟩

/-- A statement that does not write the row of the job. -/
theorem keeps_sql {s : Stmt} (h : s.target ≠ some id) : Keeps id (.sql s) := by
  refine ⟨nofun, fun stmt' heq => ?_⟩
  cases heq
  exact h

/-- The handlers of another job leave the lease alone. -/
theorem handler_keeps {k : String} (h : k ≠ id) : HandlerSteps (Keeps id) k where
  time := keeps_time
  enqueue := keeps_enqueue k
  get := keeps_get
  state := keeps_put (k := .state k) nofun
  lease := keeps_put (k := .lease k) fun heq => h (DhtKey.lease.inj heq)
  noLease := keeps_del fun heq => h (DhtKey.lease.inj heq)
  taskAd _ := keeps_del nofun
  manifest := keeps_del nofun
  stmt stmt hstmt := by
    refine keeps_sql fun htarget => h ?_
    cases stmt with
    | createJob | attachManifest | listExpiredLeases => exact hstmt.elim
    | getJob | claimRefusal => cases htarget
    | tryClaim | heartbeat | finish | setStatusQueued =>
        rw [← (hstmt : _ = k)]
        exact Option.some.inj htarget

end Keeps

/-! ## Between two executions -/

section Settled

variable {id : String} {w w' : World}

/-- The row of the job is sound, and not leased to the empty agent. -/
def FitRow (id : String) (w : World) : Prop :=
  ∀ row, w.db.lookup id = some row → row.Sound ∧ row.leaseAgent ≠ some ""

/-- What holds between two executions: the lease record is empty, or it is that of the lease in the
row. -/
structure Settled (id : String) (w : World) : Prop where
  fit : FitRow id w
  blank : (leaseRecord id w).owner = "" → (leaseRecord id w).version = 0
  held : (leaseRecord id w).owner ≠ "" → ∃ row, w.db.lookup id = some row ∧
    row.leaseAgent = some (leaseRecord id w).owner ∧ row.leaseToken = (leaseRecord id w).version

theorem FitRow.of_same (h : FitRow id w) (hsame : SameLease id w w') : FitRow id w' := by
  unfold FitRow
  rw [hsame.row]
  exact h

theorem Settled.of_same (h : Settled id w) (hsame : SameLease id w w') : Settled id w' := by
  refine ⟨h.fit.of_same hsame, ?_, ?_⟩
  · rw [hsame.record]
    exact h.blank
  · rw [hsame.record, hsame.row]
    exact h.held

/-- A record of the lease in the row carries its token. -/
theorem Settled.fenced (h : Settled id w) : Fenced id w := by
  intro row agentID hrow hagent howner
  obtain ⟨row', hrow', hagent', htoken⟩ := h.held howner
  obtain rfl : row' = row := Option.some.inj (hrow'.symm.trans hrow)
  exact ⟨Option.some.inj (hagent'.symm.trans hagent), htoken.symm⟩

/-- A row that is not leased has an empty record. -/
theorem Settled.owner_of_unleased (h : Settled id w) {row : Row}
    (hrow : w.db.lookup id = some row) (hagent : row.leaseAgent = none) :
    (leaseRecord id w).owner = "" := by
  by_contra howner
  obtain ⟨row', hrow', hagent', -⟩ := h.held howner
  obtain rfl : row' = row := Option.some.inj (hrow'.symm.trans hrow)
  rw [hagent] at hagent'
  cases hagent'

/-- A lease record that is written is the one that is read. -/
theorem lease_record_write_self (lease : TaskLease) :
    leaseRecord id (w.write (.lease id) lease) = lease := by
  unfold leaseRecord
  rw [w.write_dht_self (.lease id)]
  rfl

/-- Without a lease record the job is settled. -/
theorem FitRow.deleted (h : FitRow id w) :
    Settled id (w.write (.lease id) (default : TaskLease)) := by
  have hrecord : leaseRecord id (w.write (.lease id) (default : TaskLease)) = default :=
    lease_record_write_self default
  refine ⟨h, ?_, ?_⟩
  · intro _
    rw [hrecord]
    rfl
  · intro howner
    rw [hrecord] at howner
    exact absurd rfl howner

/-- Code that leaves the lease alone keeps the job settled. -/
theorem Settled.kept {α : Type} {p : Code α} (h : Settled id w)
    (hp : p.Always (fun _ _ => True) (Keeps id)) :
    p.Through effect Reliable (fun w _ => Fenced id w) w fun _ w' => Settled id w' :=
  (through_kept hp h.fenced).mono fun _ _ hsame => h.of_same hsame

end Settled

/-! ## Executions that delete the record -/

section Deletions

variable {id : String} {w : World}

/-- The statements that end a lease. -/
def Ends : Stmt → Prop
  | .finish _ _ _ _ | .setStatusQueued _ => True
  | .createJob _ | .getJob _ | .attachManifest _ _ | .tryClaim _ _ _ | .claimRefusal _
  | .heartbeat _ _ _ _ | .listExpiredLeases => False

/-- A statement that ends a lease leaves the row as it is, or without an agent. -/
theorem row_of_ends {stmt : Stmt} (hstmt : Ends stmt) (input : Store.Input) (db : DemandJobs) :
    (Store.effect stmt input db).2.lookup id = db.lookup id ∨
      ∀ row, (Store.effect stmt input db).2.lookup id = some row → row.leaseAgent = none := by
  have hrow := row_step (effect_step stmt input db) id
  generalize (Store.effect stmt input db).1 = response at hrow
  generalize (Store.effect stmt input db).2.lookup id = new at hrow
  generalize db.lookup id = old at hrow
  cases hrow with
  | idle => exact .inl rfl
  | finish | requeue =>
      refine .inr fun row hrow => ?_
      cases hrow
      rfl
  | create | attach | claim | renew => exact hstmt.elim

/-- The row is fit, and no record disagrees with it. -/
structure Loose (id : String) (w : World) : Prop where
  row : FitRow id w
  fenced : Fenced id w

theorem Loose.of_same {w' : World} (h : Loose id w) (hsame : SameLease id w w') : Loose id w' :=
  ⟨h.row.of_same hsame, h.fenced.of_same hsame⟩

theorem Settled.loose (h : Settled id w) : Loose id w := ⟨h.fit, h.fenced⟩

/-- A statement that ends a lease leaves the row fit. -/
theorem Loose.ends {stmt : Stmt} (h : Loose id w) (hstmt : Ends stmt) (input : Store.Input) :
    Loose id { w with db := (Store.effect stmt input w.db).2 } := by
  have hsound := (row_step (effect_step stmt input w.db) id).sound
    fun row hrow => (h.row row hrow).1
  rcases row_of_ends hstmt input w.db with hsame | hnone
  · have hlease : SameLease id w { w with db := (Store.effect stmt input w.db).2 } := ⟨hsame, rfl⟩
    exact h.of_same hlease
  · refine ⟨fun row hrow => ⟨hsound row hrow, ?_⟩, fun row agentID hrow hagent => ?_⟩
    · rw [hnone row hrow]
      exact nofun
    · rw [hnone row hrow] at hagent
      cases hagent

/-- A method that ends a lease leaves the row fit, and the job settled when it fails. -/
theorem store_ends {m : PGStore.Method (Except Store.Err Unit)} (h : Settled id w)
    (hm : m.Always (fun _ _ => True) Ends)
    (hfail : m.Ensures Store.effect (fun _ => True) w.db fun result db =>
      result = .ok () ∨ db = w.db) :
    (store m).Through effect Reliable (fun w _ => Fenced id w) w fun result w' =>
      Loose id w' ∧ (result = .ok () ∨ Settled id w') := by
  have hcalls : (store m).Always (fun _ _ => True) fun c => ∃ stmt, c = .sql stmt ∧ Ends stmt :=
    hm.embed fun stmt hstmt => ⟨stmt, rfl, hstmt⟩
  have hresult : (store m).Ensures effect Reliable w fun result w' =>
      result = .ok () ∨ Settled id w' := by
    refine ensures_store (hfail.mono fun result db hdb => hdb.imp_right ?_)
    intro hdb
    rw [hdb]
    exact h
  refine hresult.through hcalls ?_ (fun _ w' _ hw' => hw'.fenced) h.loose
  intro c input w' hc hw'
  obtain ⟨stmt, rfl, hstmt⟩ := hc
  exact hw'.ends hstmt input.toInput

/-- The deletion of the record settles the job, and what follows leaves the lease alone. -/
theorem Loose.through_deleted {α : Type} {f : Unit → Code α} (h : Loose id w)
    (hf : (f ()).Always (fun _ _ => True) (Keeps id)) :
    (delJSON (.lease id) >>= f).Through effect Reliable (fun w _ => Fenced id w) w
      fun _ w' => Settled id w' :=
  Prog.through_bind_state (through_del_json h.fenced) fun _ => h.row.deleted.kept hf

/-- A finish leaves the job settled. -/
theorem finish_settles (h : Settled id w) (env : Env) (ns : String) (r : Request FinishIn) :
    (finishHandler env ns r).Through effect Reliable (fun w _ => Fenced id w) w
      fun _ w' => Settled id w' := by
  by_cases hown : ∃ c, finishRequest env r = .ok c ∧ c.id = id
  · obtain ⟨c, hreq, rfl⟩ := hown
    unfold finishHandler
    rw [hreq]
    have hends : (PGStore.finish c.id c.agentID c.token c.outcome).Always (fun _ _ => True) Ends :=
      ⟨trivial, fun response _ => by cases response <;> trivial⟩
    refine Prog.through_bind ((store_ends h hends PGStore.ensures_finish_kept).mono ?_)
    intro result w₁ hw₁
    cases result with
    | error e => exact hw₁.2.resolve_left nofun
    | ok _ =>
        refine Prog.through_bind ?_
        refine Prog.through_bind_eq (through_get_json hw₁.1.fenced) ?_
        refine Prog.through_bind_state (through_time_now hw₁.1.fenced) fun now => ?_
        refine Prog.through_bind_state (through_put_json hw₁.1.fenced) fun _ => ?_
        refine (hw₁.1.of_same (same_lease_write (k := .state c.id) nofun _ w₁)).through_deleted ?_
        refine ⟨keeps_del nofun, fun _ _ => ?_⟩
        exact ⟨keeps_del nofun, fun _ _ => trivial⟩
  · refine h.kept (HandlerSteps.finish_handler fun c hreq => handler_keeps ?_)
    exact fun hid => hown ⟨c, hreq, hid⟩

/-- A release leaves the job settled. -/
theorem release_settles (h : Settled id w) (env : Env) (r : Request ReleaseIn) :
    (releaseHandler env r).Through effect Reliable (fun w _ => Fenced id w) w
      fun _ w' => Settled id w' := by
  unfold releaseHandler
  cases hreq : releaseRequest env r with
  | error reply => exact h
  | ok c =>
      refine Prog.through_bind_eq (through_get_json h.fenced) ?_
      split
      · exact h
      · split
        · exact h
        · refine Prog.through_bind ?_
          have hdeleted : Settled id (w.write (.lease c.id) (default : TaskLease)) := by
            by_cases hid : id = c.id
            · subst hid
              exact h.fit.deleted
            · exact h.of_same (same_lease_write (k := .lease c.id) (by simpa using hid) _ w)
          refine Prog.through_bind_state (through_del_json h.fenced) fun _ => hdeleted.kept ?_
          refine ⟨keeps_get _, fun st _ => ?_⟩
          show (if c.Releases _ then _ else _ : Code Unit).Always _ _
          split
          · refine ⟨keeps_time, fun _ _ => ?_⟩
            exact ⟨keeps_put (k := .state c.id) nofun _, fun _ _ => trivial⟩
          · trivial

/-- The requeue of one job leaves the job settled. -/
theorem requeue_settles (h : Settled id w) (k : String) (now : Time) :
    (requeueJob k now).Through effect Reliable (fun w _ => Fenced id w) w
      fun _ w' => Settled id w' := by
  by_cases hid : k = id
  · subst hid
    have hends : (PGStore.setStatusQueued k).Always (fun _ _ => True) Ends :=
      ⟨trivial, fun _ _ => trivial⟩
    have hfail : (PGStore.setStatusQueued k).Ensures Store.effect (fun _ => True) w.db
        fun result db => result = .ok () ∨ db = w.db :=
      PGStore.ensures_set_status_queued.mono fun _ _ hcases =>
        hcases.imp (fun hok => hok.1) fun hfailed => hfailed.2
    refine Prog.through_bind ((store_ends h hends hfail).mono ?_)
    intro result w₁ hw₁
    cases result with
    | error e => exact hw₁.2.resolve_left nofun
    | ok _ =>
        refine hw₁.1.through_deleted (Prog.always_bind ?_ fun _ => ?_)
        · exact ⟨keeps_get _, fun _ _ => ⟨keeps_put (k := .state k) nofun _, fun _ _ => trivial⟩⟩
        · exact ⟨keeps_enqueue k, fun _ _ => trivial⟩
  · exact h.kept ((handler_keeps hid).requeue_job now)

/-- A tick of the requeue loop leaves the job settled. -/
theorem requeue_tick_settles (h : Settled id w) :
    requeueTick.Through effect Reliable (fun w _ => Fenced id w) w fun _ w' => Settled id w' := by
  refine Prog.through_bind_state (through_time_now h.fenced) fun now => ?_
  have hlist : (store (PGStore.listExpiredLeases (now - 3 * second))).Always (fun _ _ => True)
      (Keeps id) := by
    refine ⟨keeps_sql nofun, fun result _ => ?_⟩
    cases result <;> trivial
  refine Prog.through_bind ((h.kept hlist).mono fun result w₁ hw₁ => ?_)
  cases result with
  | error e => exact hw₁
  | ok expired =>
      exact Prog.through_forM hw₁ fun k w₂ hw₂ => requeue_settles hw₂ k now

end Deletions

/-! ## Claims -/

section Claims

variable {id : String} {w : World}

/-- The row is leased to the agent with the token, and the record is still empty. -/
structure Pending (id agentID : String) (token : Int) (w : World) : Prop where
  fit : FitRow id w
  row : ∃ row, w.db.lookup id = some row ∧ row.leaseAgent = some agentID ∧ row.leaseToken = token
  blank : (leaseRecord id w).owner = ""

/-- An empty record disagrees with no row. -/
theorem fenced_of_blank (h : (leaseRecord id w).owner = "") : Fenced id w :=
  fun _ _ _ _ howner => absurd h howner

theorem Pending.of_same {agentID : String} {token : Int} {w' : World}
    (h : Pending id agentID token w) (hsame : SameLease id w w') : Pending id agentID token w' := by
  refine ⟨h.fit.of_same hsame, ?_, ?_⟩
  · rw [hsame.row]
    exact h.row
  · rw [hsame.record]
    exact h.blank

/-- The record of a lease that was just taken settles the job. -/
theorem Pending.written {agentID : String} {token : Int} (h : Pending id agentID token w)
    (hagent : agentID ≠ "") (expires : Time) :
    Settled id (w.write (.lease id) (⟨agentID, "", expires, token⟩ : TaskLease)) := by
  have hrecord := @lease_record_write_self id w ⟨agentID, "", expires, token⟩
  refine ⟨h.fit, ?_, ?_⟩
  · intro howner
    rw [hrecord] at howner
    exact absurd howner hagent
  · intro _
    rw [hrecord]
    exact h.row

/-- `tryClaimHandler` does not claim for the empty agent. -/
theorem try_claim_named {env : Env} {r : Request TryClaimIn} {c : ClaimCall}
    (h : tryClaimRequest env r = .ok c) : c.agentID ≠ "" := by
  unfold tryClaimRequest at h
  grind

/-- A claim that takes effect finds an empty record, and leaves its lease pending. -/
theorem Settled.claimed (h : Settled id w) {agentID : String} (hagent : agentID ≠ "")
    (ttl : Duration) (now : Time) {row : Row} (hrow : w.db.lookup id = some row)
    (hguard : row.Claimable now) (hroom : row.leaseToken + 1 < 2 ^ 63) :
    Pending id agentID (int64 (uint64 (row.leaseToken + 1)))
      { w with db := w.db.insert id (row.claimed agentID ttl now) } := by
  obtain ⟨hsound, -⟩ := h.fit row hrow
  have hnonneg := hsound.token_nonneg
  have htoken : int64 (uint64 (row.leaseToken + 1)) = row.leaseToken + 1 :=
    int64_uint64 (by omega) hroom
  have hlookup : (w.db.insert id (row.claimed agentID ttl now)).lookup id =
      some (row.claimed agentID ttl now) := AList.lookup_insert w.db
  refine ⟨fun row' hrow' => ?_, ⟨_, hlookup, rfl, htoken.symm⟩,
    h.owner_of_unleased hrow (hsound.agent_none_of_claimable hguard)⟩
  obtain rfl := Option.some.inj (hlookup.symm.trans hrow')
  exact ⟨hsound.claimed agentID ttl now hroom, fun heq => hagent (Option.some.inj heq)⟩

/-- `TryClaim` leaves the job settled when it fails. -/
theorem store_claims (h : Settled id w) {agentID : String} (hagent : agentID ≠ "")
    (ttl : Duration) :
    (store (PGStore.tryClaim id agentID ttl)).Through effect Reliable (fun w _ => Fenced id w) w
      fun result w' => match result with
        | .ok claimed => Pending id agentID (int64 claimed.fencingToken) w'
        | .error _ => Settled id w' := by
  refine ⟨h.fenced, fun input _ => ?_⟩
  rcases try_claim_cases agentID ttl input.toInput with ⟨row, hrow, hguard, hroom, heffect⟩ |
    ⟨-, heffect⟩ | ⟨e, heffect⟩
  · rw [effect_sql heffect]
    exact h.claimed hagent ttl input.now hrow hguard hroom
  · rw [effect_sql heffect]
    -- the two queries that choose the error change nothing
    refine ⟨h.fenced, fun input' _ => ?_⟩
    have hread := h.of_same (same_lease_step (keeps_sql (s := .getJob id) nofun) input' w)
    generalize (effect (.sql (.getJob id)) input' w).2 = w₁ at hread
    generalize (effect (.sql (.getJob id)) input' w).1 = response
    rcases response with e | (_ | job)
    · exact hread
    · exact hread
    · refine ⟨hread.fenced, fun input'' _ => ?_⟩
      exact hread.of_same (same_lease_step (keeps_sql (s := .claimRefusal id) nofun) input'' w₁)
  · rw [effect_sql heffect]
    exact h

/-- A claim leaves the job settled. -/
theorem claim_settles (h : Settled id w) (env : Env) (r : Request TryClaimIn) :
    (tryClaimHandler env r).Through effect Reliable (fun w _ => Fenced id w) w
      fun _ w' => Settled id w' := by
  by_cases hown : ∃ c, tryClaimRequest env r = .ok c ∧ c.id = id
  · obtain ⟨c, hreq, rfl⟩ := hown
    have hagent := try_claim_named hreq
    have hmirror : (mirrorAssigned c).Always (fun _ _ => True) (Keeps c.id) :=
      ⟨keeps_time, fun _ _ => ⟨keeps_get _, fun _ _ =>
        ⟨keeps_put (k := .state c.id) nofun _, fun _ _ => trivial⟩⟩⟩
    unfold tryClaimHandler
    rw [hreq]
    refine Prog.through_bind ((store_claims h hagent c.ttl).mono fun result w₁ hw₁ => ?_)
    rcases result with (_ | _ | _ | _ | e) | claimed
    · exact hw₁
    · -- without a manifest the state is written, and then a nil pointer is read
      exact Prog.through_bind (Settled.kept hw₁ hmirror)
    · exact hw₁
    · exact hw₁
    · exact hw₁
    · refine Prog.through_bind ((through_kept hmirror (fenced_of_blank hw₁.blank)).mono ?_)
      intro _ w₂ hsame
      have hw₂ := hw₁.of_same hsame
      refine Prog.through_bind_state (through_put_json (fenced_of_blank hw₂.blank)) fun _ => ?_
      exact hw₂.written hagent claimed.expireAt
  · refine h.kept (HandlerSteps.try_claim_handler fun c hreq => handler_keeps ?_)
    exact fun hid => hown ⟨c, hreq, hid⟩

end Claims

/-! ## Heartbeats -/

section Heartbeats

variable {id : String} {w : World}

/-- A heartbeat does not find the version that it writes. -/
theorem incr_ne_self (v : Int) : incr v ≠ v := by
  unfold incr
  rw [Int.bmod_def]
  split <;> omega

/-- The lease record that a heartbeat writes. -/
def renewedRecord (c : HeartbeatCall) (now : Time) (cur : TaskLease) : TaskLease :=
  { cur with
    owner := c.agentID
    expires := now + c.ttl
    version := incr cur.version }

/-- The mirror of a heartbeat writes the record back. -/
theorem mirror_heartbeat_through {F : World → Prop} (hw : F w) (c : HeartbeatCall) :
    (mirrorHeartbeat c).Through effect Reliable (fun w _ => F w) w fun _ w' => ∃ now,
      w' = w.write (.lease c.id) (renewedRecord c now (leaseRecord c.id w)) := by
  refine Prog.through_bind_eq (through_get_json hw) ?_
  refine Prog.through_bind_state (through_time_now hw) fun now => ?_
  exact (through_put_json hw).mono fun _ w' hw' => ⟨now, hw'⟩

/-- The world after the statement of a heartbeat that takes effect. -/
def renewedWorld (c : HeartbeatCall) (row : Row) (now : Time) (w : World) : World :=
  { w with db := w.db.insert c.id (row.renew c.ttl now) }

/-- After a heartbeat that takes effect the record carries the token exactly when it had no owner
and the token is the first one; then the job is settled. -/
theorem Settled.renewed {c : HeartbeatCall} {row : Row} (h : Settled c.id w)
    (hrow : w.db.lookup c.id = some row) (hheld : row.HeldBy c.agentID c.token) (now now' : Time) :
    let w₁ := renewedWorld c row now w
    let w₂ := w₁.write (.lease c.id) (renewedRecord c now' (leaseRecord c.id w₁))
    (Fenced c.id w₂ → (leaseRecord c.id w).owner = "" ∧ row.leaseToken = 1) ∧
      ((leaseRecord c.id w).owner = "" ∧ row.leaseToken = 1 → Settled c.id w₂) := by
  intro w₁ w₂
  have hlookup : w₂.db.lookup c.id = some (row.renew c.ttl now) := AList.lookup_insert w.db
  have hrecord : leaseRecord c.id w₂ = renewedRecord c now' (leaseRecord c.id w) :=
    lease_record_write_self _
  have hagent : (row.renew c.ttl now).leaseAgent = some c.agentID := hheld.1
  have hnamed : c.agentID ≠ "" := fun hempty => (h.fit row hrow).2 (hempty ▸ hheld.1)
  constructor
  · intro hfenced
    have howner : (leaseRecord c.id w₂).owner ≠ "" := by
      rw [hrecord]
      exact hnamed
    have hversion := (hfenced _ _ hlookup hagent howner).2
    rw [hrecord] at hversion
    have hincr : incr (leaseRecord c.id w).version = row.leaseToken := hversion
    by_cases hblank : (leaseRecord c.id w).owner = ""
    · rw [h.blank hblank] at hincr
      exact ⟨hblank, hincr.symm⟩
    · -- the record had the token already, and the version moved away from it
      obtain ⟨row', hrow', -, htoken⟩ := h.held hblank
      obtain rfl : row' = row := Option.some.inj (hrow'.symm.trans hrow)
      rw [htoken] at hincr
      exact absurd hincr (incr_ne_self _)
  · intro hfirst
    obtain ⟨hblank, htoken⟩ := hfirst
    refine ⟨?_, ?_, ?_⟩
    · intro row' hrow'
      obtain rfl := Option.some.inj (hlookup.symm.trans hrow')
      exact ⟨(h.fit row hrow).1.renew hheld c.ttl now, (h.fit row hrow).2⟩
    · intro howner
      rw [hrecord] at howner
      exact absurd howner hnamed
    · intro _
      refine ⟨_, hlookup, ?_, ?_⟩
      · rw [hrecord]
        exact hagent
      · rw [hrecord]
        show row.leaseToken = incr (leaseRecord c.id w).version
        rw [h.blank hblank, htoken]
        rfl

/-- What a heartbeat does after the store. -/
def afterHeartbeat (c : HeartbeatCall) (result : Except Store.Err Unit) : Code Unit := do
  match result with
  | .error _ => pure ()
  | .ok _ => mirrorHeartbeat c

/-- The code of a heartbeat, from its statement. -/
theorem heartbeat_job_eq (c : HeartbeatCall) :
    (heartbeatJob c >>= fun _ => pure ()) =
      Prog.call (.sql (.heartbeat c.id c.agentID c.token c.ttl)) fun response =>
        afterHeartbeat c (PGStore.requireRow .badToken response) := by
  refine congrArg (Prog.call _) (funext fun response => ?_)
  show (match PGStore.requireRow .badToken response with
    | .error e => pure (Reply.error 409 ("heartbeat failed: " ++ e.text))
    | .ok _ => do
        mirrorHeartbeat c
        pure Reply.ok : Code Reply) >>= (fun _ => pure ()) = _
  cases PGStore.requireRow .badToken response with
  | error e => rfl
  | ok _ =>
      show (mirrorHeartbeat c >>= fun _ => pure Reply.ok) >>= (fun _ => pure ()) = mirrorHeartbeat c
      rw [Prog.bind_assoc]
      exact Prog.bind_eq_self (fun _ => rfl) _

/-- What a heartbeat that takes effect shows after its statement. -/
theorem Settled.renewal {c : HeartbeatCall} {row : Row} (h : Settled c.id w) {inputs : ℕ → Input}
    (hreliable : ∀ n, Reliable (inputs n)) (hfault : (inputs 0).fault = none)
    (hrow : w.db.lookup c.id = some row) (hheld : row.HeldBy c.agentID c.token) :
    let rest := afterHeartbeat c (.ok ())
    let w₁ := renewedWorld c row (inputs 0).now w
    ((Fenced c.id w ∧ ∀ w' ∈ rest.visited effect (fun n => inputs (n + 1)) w₁, Fenced c.id w') ↔
      c.Fits (inputs 0).toInput w) ∧
    (c.Fits (inputs 0).toInput w →
      Settled c.id (rest.run effect (fun n => inputs (n + 1)) w₁).state) := by
  intro rest w₁
  have hinputs : ∀ n, Reliable (inputs (n + 1)) := fun n => hreliable (n + 1)
  have hrenewed := fun now => h.renewed hrow hheld (inputs 0).now now
  have hsettles : c.Fits (inputs 0).toInput w → rest.Through effect Reliable
      (fun w _ => Fenced c.id w) w₁ fun _ w' => Settled c.id w' := by
    intro hfits
    have hfirst := hfits hfault row hrow hheld
    have hblank : Fenced c.id w₁ := fenced_of_blank hfirst.1
    refine (mirror_heartbeat_through hblank c).mono fun _ w' hw' => ?_
    obtain ⟨now, rfl⟩ := hw'
    exact (hrenewed now).2 hfirst
  refine ⟨⟨fun hall _ row' hrow' _ => ?_, fun hfits => ⟨h.fenced, ?_⟩⟩, fun hfits => ?_⟩
  · obtain rfl : row = row' := Option.some.inj (hrow.symm.trans hrow')
    have hlast := hall.2 _ (Prog.run_state_mem_visited _ _ _ _)
    obtain ⟨now, hwritten⟩ :=
      (mirror_heartbeat_through (F := fun _ => True) trivial c).run hinputs
    have hlast' : Fenced c.id _ := hwritten ▸ hlast
    exact (hrenewed now).1 hlast'
  · exact ((hsettles hfits).mono fun _ _ hw' => hw'.fenced).visited hinputs
  · exact (hsettles hfits).run hinputs

/-- A heartbeat for the job shows only worlds in which the record carries the token exactly when it
meets the condition, and then leaves the job settled. -/
theorem Settled.heartbeat {c : HeartbeatCall} (h : Settled c.id w) {inputs : ℕ → Input}
    (hreliable : ∀ n, Reliable (inputs n)) :
    let code : Code Unit := do
      let _ ← heartbeatJob c
    ((∀ w' ∈ code.visited effect inputs w, Fenced c.id w') ↔ c.Fits (inputs 0).toInput w) ∧
      (c.Fits (inputs 0).toInput w → Settled c.id (code.run effect inputs w).state) := by
  intro code
  have hcode : code = _ := heartbeat_job_eq c
  rw [hcode, Prog.visited_call]
  show (_ ↔ _) ∧ (_ → Settled c.id ((afterHeartbeat c _).run effect _ _).state)
  rw [List.forall_mem_cons]
  have hidle : c.Fits (inputs 0).toInput w → ((Fenced c.id w ∧ ∀ w' ∈ [w], Fenced c.id w') ↔
      c.Fits (inputs 0).toInput w) ∧ (c.Fits (inputs 0).toInput w → Settled c.id w) := by
    intro hfits
    refine ⟨iff_of_true ⟨h.fenced, fun w' hw' => ?_⟩ hfits, fun _ => h⟩
    rw [List.mem_singleton.mp hw']
    exact h.fenced
  rcases heartbeat_cases c.agentID c.token c.ttl (inputs 0).toInput with
    ⟨row, hfault, hrow, hheld, heffect⟩ | ⟨hnone, heffect⟩ | ⟨e, hfault, heffect⟩
  · rw [effect_sql heffect]
    exact h.renewal hreliable hfault hrow hheld
  · rw [effect_sql heffect]
    exact hidle fun _ row hrow hheld => absurd hheld (hnone row hrow)
  · rw [effect_sql heffect]
    refine hidle fun hnone => ?_
    rw [hfault] at hnone
    cases hnone

end Heartbeats

/-! ## Sequences of executions -/

section Sequences

variable {id : String} {w : World}

/-- An execution that keeps the job settled on its way. -/
theorem LeaseTurn.act_of_through {t : LeaseTurn}
    (h : t.exec.code.Through effect Reliable (fun w _ => Fenced id w) w fun _ w' => Settled id w') :
    (∀ w' ∈ (t.act w).1, Fenced id w') ∧ Settled id (t.act w).2 :=
  ⟨(h.mono fun _ _ hw' => hw'.fenced).visited t.reliable, h.run t.reliable⟩

/-- From a settled world, a turn shows only worlds in which the record carries the token exactly
when it meets the condition, and then leaves the job settled. -/
theorem Settled.turn (h : Settled id w) (t : LeaseTurn) :
    ((∀ w' ∈ (t.act w).1, Fenced id w') ↔ t.Fits id w) ∧
      (t.Fits id w → Settled id (t.act w).2) := by
  have hquiet : t.Fits id w → t.exec.code.Through effect Reliable (fun w _ => Fenced id w) w
      (fun _ w' => Settled id w') →
      ((∀ w' ∈ (t.act w).1, Fenced id w') ↔ t.Fits id w) ∧
        (t.Fits id w → Settled id (t.act w).2) :=
    fun hfits hthrough => ⟨iff_of_true (t.act_of_through hthrough).1 hfits,
      fun _ => (t.act_of_through hthrough).2⟩
  obtain ⟨exec, inputs, hreliable⟩ := t
  cases exec with
  | claim env r => exact hquiet trivial (Prog.through_bind (claim_settles h env r))
  | finish env ns r => exact hquiet trivial (Prog.through_bind (finish_settles h env ns r))
  | release env r => exact hquiet trivial (Prog.through_bind (release_settles h env r))
  | requeue => exact hquiet trivial (requeue_tick_settles h)
  | heartbeat env r =>
      by_cases hown : ∃ c, heartbeatRequest env r = .ok c ∧ c.id = id
      · obtain ⟨c, hreq, rfl⟩ := hown
        have hcode : (LeaseExec.heartbeat env r).code = (heartbeatJob c >>= fun _ => pure ()) := by
          show (heartbeatHandler env r >>= fun _ => pure ()) = _
          unfold heartbeatHandler
          rw [hreq]
        have hfits : (⟨.heartbeat env r, inputs, hreliable⟩ : LeaseTurn).Fits c.id w ↔
            c.Fits (inputs 0).toInput w := by
          refine ⟨fun hall => hall c hreq rfl, fun hc c' hreq' _ => ?_⟩
          obtain rfl : c = c' := Except.ok.inj (hreq.symm.trans hreq')
          exact hc
        rw [hfits]
        unfold LeaseTurn.act
        rw [hcode]
        exact h.heartbeat hreliable
      · have hfits : (⟨.heartbeat env r, inputs, hreliable⟩ : LeaseTurn).Fits id w :=
          fun c hreq hid => absurd ⟨c, hreq, hid⟩ hown
        refine hquiet hfits (Prog.through_bind (h.kept
          (HandlerSteps.heartbeat_handler fun c hreq => handler_keeps ?_)))
        exact fun hid => hown ⟨c, hreq, hid⟩

end Sequences

/-- Start with a job that has no lease, and no owner in its lease record. In every world of every
sequence of claims, heartbeats, finishes, releases and requeues on a reliable DHT, a record with an
owner carries the agent and the token of a leased row, exactly when every heartbeat for the job that
takes effect finds the record without an owner and the row with the first token. -/
theorem lease_record_fenced_iff (id : String) {w : World} (hreach : Reachable w.db)
    (hrow : ∀ row, w.db.lookup id = some row → row.leaseAgent = none)
    (hrecord : leaseRecord id w = default) (turns : List LeaseTurn) :
    (∀ m ∈ observe LeaseTurn.act turns w, Fenced id m.2) ↔
      EachMeets LeaseTurn.act (LeaseTurn.Fits id) turns w := by
  have hsettled : Settled id w := by
    refine ⟨fun row hlookup => ⟨?_, ?_⟩, fun _ => ?_, fun howner => ?_⟩
    · obtain ⟨history, hrun⟩ := hreach
      exact hrun.sound id row hlookup
    · rw [hrow row hlookup]
      exact nofun
    · rw [hrecord]
      rfl
    · rw [hrecord] at howner
      exact absurd rfl howner
  have hobserved : EachMeets LeaseTurn.act (fun t w => ∀ w' ∈ (t.act w).1, Fenced id w') turns w ↔
      ∀ m ∈ observe LeaseTurn.act turns w, Fenced id m.2 :=
    each_meets_observed (P := fun _ => Fenced id)
  rw [← hobserved]
  refine each_meets_congr (I := Settled id) (fun t w' hw' => ?_) hsettled
  obtain ⟨hiff, hkeep⟩ := hw'.turn t
  exact ⟨hiff, fun hall => hkeep (hiff.mp hall)⟩

namespace Sample

/-- The sample job is queued, and the DHT is empty. -/
def waitingWorld : World := { Site.empty.world with db := waiting }

/-- An execution at one time, on a DHT that answers. -/
def leaseTurn (now : Time) (x : LeaseExec) : LeaseTurn := ⟨x, fun _ => { now := now }, fun _ => rfl⟩

/-- The job is claimed, its lease expires, and another agent claims it. -/
def takenTwice : List LeaseTurn :=
  [leaseTurn 2 (.claim noAuth (claimsBy "a")), leaseTurn (20 * second) .requeue,
    leaseTurn (21 * second) (.claim noAuth (claimsBy "b"))]

/-- The agent `a` renews its lease. -/
def beats : Request HbIn where
  method := "POST"
  path := "/api/tasks/job/heartbeat"
  header _ := ""
  body := .ok ⟨"a", "", 15, 1⟩

end Sample

/-- The second agent of the sample job finds its token in the record. -/
theorem lease_record_fenced_iff_reclaimed :
    (∀ m ∈ observe LeaseTurn.act Sample.takenTwice Sample.waitingWorld, Fenced "job" m.2) ∧
    ∃ m ∈ observe LeaseTurn.act Sample.takenTwice Sample.waitingWorld,
      (leaseRecord "job" m.2).owner = "b" ∧ (leaseRecord "job" m.2).version = 2 := by
  have hreach : Reachable Sample.waitingWorld.db := ⟨_, play_run _⟩
  have hqueued : (Sample.waitingWorld.db.lookup "job").bind Row.leaseAgent = none := by
    decide +kernel
  have hrow : ∀ row, Sample.waitingWorld.db.lookup "job" = some row → row.leaseAgent = none := by
    intro row hrow
    rw [hrow] at hqueued
    exact hqueued
  refine ⟨?_, ?_⟩
  · exact (lease_record_fenced_iff "job" hreach hrow rfl Sample.takenTwice).mpr
      ⟨trivial, trivial, trivial, trivial⟩
  · decide +kernel

/-- The agent of the sample job renews its lease: the record has version 2, and the row token 1. -/
theorem heartbeat_leaves_token :
    ∃ m ∈ observe LeaseTurn.act [Sample.leaseTurn 2 (.claim Sample.noAuth (Sample.claimsBy "a")),
      Sample.leaseTurn 3 (.heartbeat Sample.noAuth Sample.beats)] Sample.waitingWorld,
      (leaseRecord "job" m.2).owner = "a" ∧ (leaseRecord "job" m.2).version = 2 ∧
      (m.2.db.lookup "job").map (fun row => (row.leaseAgent, row.leaseToken)) =
        some (some "a", 1) := by
  decide +kernel

end MutualCloud.Control
