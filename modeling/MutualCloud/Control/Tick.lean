import MutualCloud.Control.Recovery
import MutualCloud.Control.Replies
import MutualCloud.Library.Provenance

/-!
# One tick of the requeue loop

What a tick of `requeueLoop` does to the rows. It reads the clock, lists the jobs whose lease is
over by the clock of the database, and sends a `SetStatusQueued` for each of them. On its own, and
with statements that do not fail, a tick puts back exactly the jobs that its scan lists and whose
retry counter can grow (`tick_rows`). A tick that is under way leaves a row as it is or puts its job
back (`ensures_rest_of_tick`). Among other threads a tick sends `SetStatusQueued` only for a job
that its scan has listed before (`listed_before`).
-/

namespace MutualCloud.Control

open Go KeyedTable Interaction Labelled Store

/-- What holds of every step that is no statement holds of the mirror. -/
theorem mirror_steps_of {P : Call → Prop} (h : ∀ c : Call, c.NotSql → P c) (id : String) :
    MirrorSteps P id where
  time := h _ nofun
  enqueue := h _ nofun
  get _ := h _ nofun
  state _ := h _ nofun
  lease _ := h _ nofun
  noLease := h _ nofun
  taskAd _ := h _ nofun
  manifest := h _ nofun

/-- A step that is no statement leaves the database as it is. -/
theorem db_of_not_sql {c : Call} (hc : c.NotSql) {input : Input} {w : World} :
    (effect c input w).2.db = w.db := by
  cases c with
  | sql stmt => exact absurd rfl (hc stmt)
  | getJSON | timeNow | enqueue => rfl
  | putJSON | delJSON =>
      unfold effect
      dsimp only
      split <;> rfl

/-- So does a program without statements. -/
theorem ensures_db_kept {α : Type} {R : Input → Prop} {p : Code α}
    (hp : p.Always (fun _ _ => True) Call.NotSql) (w : World) :
    p.Ensures effect R w fun _ w' => w'.db = w.db :=
  Prog.ensures_of_always (I := fun w' : World => w'.db = w.db) hp
    (fun _ _ _ hc hdb => (db_of_not_sql hc).trans hdb) rfl

/-! ## A tick on its own -/

/-- What a tick whose scan is at time `start` leaves of a row. -/
def swept (start : Time) (row : Row) : Row :=
  if row.Expired start ∧ row.retryCount + 1 < 2 ^ 31 then row.requeued else row

/-- A lease that is over stays over. -/
theorem expired_mono {row : Row} {now now' : Time} (h : row.Expired now) (hle : now ≤ now') :
    row.Expired now' := by
  obtain ⟨hactive, hexpiry, x, hx, hlt⟩ := h
  exact ⟨hactive, hexpiry, x, hx, lt_of_lt_of_le hlt hle⟩

/-- A job in the queue is not expired. -/
theorem requeued_not_expired (row : Row) (now : Time) : ¬ row.requeued.Expired now :=
  fun hexpired => hexpired.1.ne_queued rfl

/-- A statement for a job that the scan listed sweeps its row, whether or not one did so before. -/
theorem requeue_of_listed {row row' : Row} {start now : Time} (hexpired : row.Expired start)
    (hle : start ≤ now) (hrow' : row' = row ∨ row' = swept start row) :
    (if row'.Expired now ∧ row'.retryCount + 1 < 2 ^ 31 then row'.requeued else row') =
      swept start row := by
  by_cases hroom : row.retryCount + 1 < 2 ^ 31
  · have hswept : swept start row = row.requeued := if_pos ⟨hexpired, hroom⟩
    rw [hswept] at hrow' ⊢
    rcases hrow' with rfl | rfl
    · exact if_pos ⟨expired_mono hexpired hle, hroom⟩
    · exact if_neg fun h => requeued_not_expired row now h.1
  · have hswept : swept start row = row := if_neg fun h => hroom h.2
    rw [hswept] at hrow' ⊢
    obtain rfl : row' = row := hrow'.elim id id
    exact if_neg fun h => hroom h.2

section Alone

variable {w : World} {id : String}

/-- The database answers, at a time that is not before `start`. -/
def Steady (start : Time) (input : Input) : Prop := input.fault = none ∧ start ≤ input.now

/-- The body of the loop is its statement, and the mirror after it. -/
theorem requeue_job_eq (k : String) (now : Time) :
    requeueJob k now = .call (.sql (.setStatusQueued k)) fun response =>
      match PGStore.requireRow .jobNotFound response with
      | .error _ => pure ()
      | .ok _ => delJSON (.lease k) >>= fun _ =>
          updateDHTStateQueued k now >>= fun _ => enqueue k :=
  rfl

/-- The body of the loop acts on the database by its statement. -/
theorem ensures_requeue_statement {R : Input → Prop} (k : String) (now : Time) :
    (requeueJob k now).Ensures effect R w fun _ w' =>
      ∃ input, R input ∧ w'.db = (Store.effect (.setStatusQueued k) input.toInput w.db).2 := by
  have hsteps : MirrorSteps Call.NotSql k := mirror_steps_of (fun _ h => h) k
  rw [requeue_job_eq]
  intro input hinput
  refine (ensures_db_kept ?_ _).mono fun _ w' hdb => ⟨input, hinput, hdb⟩
  dsimp only
  cases PGStore.requireRow .jobNotFound (effect (.sql (.setStatusQueued k)) input w).1 with
  | error e => trivial
  | ok _ =>
      refine Prog.always_bind ⟨hsteps.noLease, fun _ _ => trivial⟩ fun _ => ?_
      exact Prog.always_bind (hsteps.update_dht_state_queued now) fun _ =>
        ⟨hsteps.enqueue, fun _ _ => trivial⟩

/-- The loop over the jobs of the scan sweeps the row of a job that was listed, and leaves the
others. -/
theorem ensures_requeue_all {start : Time} (now : Time) {ids : List String}
    (hlisted : ∀ row, w.db.lookup id = some row → (id ∈ ids ↔ row.Expired start)) :
    (ids.forM fun k => requeueJob k now).Ensures effect (Steady start) w
      fun _ w' => w'.db.lookup id = (w.db.lookup id).map (swept start) := by
  -- the job is as it was until the loop comes to it, and swept from then on
  refine (Prog.ensures_forM (I := fun before w' => w'.db.lookup id =
    (w.db.lookup id).map fun row => if id ∈ before then swept start row else row) (by simp)
    ?_).mono ?_
  · intro before k w' hk hbefore
    refine (ensures_requeue_statement k now).mono ?_
    rintro _ w'' ⟨input, ⟨hfault, hstart⟩, hdb⟩
    rw [hdb, set_status_queued_lookup hfault, hbefore, Option.map_map]
    refine Option.map_congr fun row hrow => ?_
    simp only [Function.comp, List.mem_append, List.mem_singleton]
    by_cases hid : k = id
    · subst hid
      simp only [true_and, or_true, if_true]
      exact requeue_of_listed ((hlisted row hrow).mp hk) hstart (by split <;> simp)
    · simp only [hid, Ne.symm hid, false_and, or_false, if_false]
  · intro _ w' hend
    rw [hend]
    refine Option.map_congr fun row hrow => ?_
    split
    · rfl
    next hnot => exact (if_neg fun h => hnot ((hlisted row hrow).mpr h.1)).symm

/-- A tick is the clock, the scan, and the body for each job that the scan lists. -/
theorem requeue_tick_eq :
    requeueTick = .call .timeNow fun now => .call (.sql .listExpiredLeases) fun response =>
      match response with
      | .error _ => pure ()
      | .ok expired => expired.forM fun id => requeueJob id now := by
  refine congrArg (Prog.call _) (funext fun now => congrArg (Prog.call _) (funext ?_))
  intro response
  cases response <;> rfl

/-- What a tick on its own does to the rows, when no statement of it fails and the clock of the
database does not go back while it runs. -/
theorem tick_rows {inputs : ℕ → Input} (hfault : ∀ n, (inputs n).fault = none)
    (hclock : ∀ n, (inputs 1).now ≤ (inputs (n + 2)).now) (w : World) (id : String) :
    (requeueTick.run effect inputs w).state.db.lookup id =
      (w.db.lookup id).map (swept (inputs 1).now) := by
  let ids := (w.db.entries.filter fun entry => Row.Expired (inputs 1).now entry.2).map Sigma.fst
  have hscan : effect (.sql .listExpiredLeases) (inputs 1) w = (.ok ids, w) := by
    simp only [effect, Store.effect, hfault 1, Stmt.exec]
    rfl
  have hlisted : ∀ row, w.db.lookup id = some row → (id ∈ ids ↔ row.Expired (inputs 1).now) := by
    intro row hrow
    rw [mem_expired_iff, hrow]
    simp
  have hinputs : ∀ n, (inputs (n + 2)).fault = none ∧ (inputs 1).now ≤ (inputs (n + 2)).now :=
    fun n => ⟨hfault (n + 2), hclock n⟩
  have hloop := (ensures_requeue_all (inputs 0).now hlisted).run hinputs
  have hread : effect .timeNow (inputs 0) w = ((inputs 0).now, w) := rfl
  rw [requeue_tick_eq]
  simp only [Prog.run]
  rw [hread, Nat.zero_add, hscan]
  exact hloop

end Alone

/-! ## The rest of a tick -/

/-- The step is one of the requeue loop: no statement, its scan, or a `SetStatusQueued`. -/
def OfRequeue (c : Call) : Prop :=
  c.NotSql ∨ c = .sql .listExpiredLeases ∨ ∃ id, c = .sql (.setStatusQueued id)

/-- The steps of a tick. -/
theorem requeue_tick_always : requeueTick.Always (fun _ _ => True) OfRequeue := by
  rw [requeue_tick_eq]
  refine ⟨.inl nofun, fun now _ => ⟨.inr (.inl rfl), fun response _ => ?_⟩⟩
  cases response with
  | error e => trivial
  | ok expired =>
      refine Prog.always_forM fun id _ => ?_
      have hmirror : MirrorSteps OfRequeue id := mirror_steps_of (fun _ => .inl) id
      rw [requeue_job_eq]
      refine ⟨.inr (.inr ⟨id, rfl⟩), fun response _ => ?_⟩
      dsimp only
      cases PGStore.requireRow .jobNotFound response with
      | error e => trivial
      | ok _ =>
          refine Prog.always_bind ⟨hmirror.noLease, fun _ _ => trivial⟩ fun _ => ?_
          exact Prog.always_bind (hmirror.update_dht_state_queued now) fun _ =>
            ⟨hmirror.enqueue, fun _ _ => trivial⟩

/-- What is left of a tick leaves a row as it is, or puts its job into the queue. -/
theorem ensures_rest_of_tick {R : Input → Prop} {p : Code Unit}
    (hp : p.Always (fun _ _ => True) OfRequeue) {w : World} {id : String} {row : Row}
    (hrow : w.db.lookup id = some row) :
    p.Ensures effect R w fun _ w' =>
      w'.db.lookup id = some row ∨ w'.db.lookup id = some row.requeued := by
  refine Prog.ensures_of_always (I := fun w' : World => w'.db.lookup id = some row ∨
    w'.db.lookup id = some row.requeued) hp ?_ (.inl hrow)
  rintro c input w' (hnot | rfl | ⟨k, rfl⟩) hrow'
  · rw [db_of_not_sql hnot]
    exact hrow'
  · have hsame : (effect (.sql .listExpiredLeases) input w').2.db = w'.db := by
      simp only [effect, Store.effect, Stmt.exec]
      cases input.fault <;> rfl
    rw [hsame]
    exact hrow'
  · have hdb : (effect (.sql (.setStatusQueued k)) input w').2.db =
        (Store.effect (.setStatusQueued k) input.toInput w'.db).2 := rfl
    rw [hdb]
    cases hfault : input.fault with
    | some e =>
        simp only [Store.effect, hfault]
        exact hrow'
    | none =>
        rw [set_status_queued_lookup hfault]
        rcases hrow' with hrow' | hrow'
        · rw [hrow', Option.map_some]
          split
          · exact .inr rfl
          · exact .inl rfl
        · rw [hrow', Option.map_some, if_neg fun h => requeued_not_expired row _ h.2.1]
          exact .inr rfl

/-! ## A tick among other threads -/

/-- A `SetStatusQueued` for a job that the answer lists. -/
def ListedBy : Call → (c : Call) → c.Response → Prop
  | .sql (.setStatusQueued id), .sql .listExpiredLeases, .ok ids => id ∈ ids
  | _, _, _ => False

/-- The step is no `SetStatusQueued`. -/
def QueuesNone (c : Call) : Prop := ∀ id, c ≠ .sql (.setStatusQueued id)

/-- A tick sends `SetStatusQueued` only for the jobs that its scan has listed. -/
theorem requeue_tick_follows : requeueTick.Follows ListedBy QueuesNone := by
  rw [requeue_tick_eq]
  refine ⟨nofun, fun now => ⟨.inl nofun, fun response => ?_⟩⟩
  cases response with
  | error e => trivial
  | ok expired =>
      refine Prog.Always.follows (Prog.always_forM fun id hid => ?_)
      have hother : ∀ c, QueuesNone c → (QueuesNone c ∨ ListedBy c .timeNow now) ∨
          ListedBy c (.sql .listExpiredLeases) (.ok expired) := fun c hc => .inl (.inl hc)
      refine HandlerSteps.requeue_job
        ⟨mirror_steps_of (fun c hc => hother c fun k => hc _) id, ?_⟩ now
      intro s hs
      cases s with
      | setStatusQueued k =>
          have hk : k = id := hs
          exact .inr (hk ▸ hid)
      | createJob | getJob | attachManifest | tryClaim | claimRefusal | heartbeat | finish
      | listExpiredLeases => exact hother _ nofun

variable {τ : Type} [DecidableEq τ] {p p' : Pool τ Call Call.Response World Unit}
  {before after : List (τ × Event)} {i : τ}

/-- A tick among other threads has listed the job before it sends `SetStatusQueued` for it. -/
theorem listed_before {id : String} {input : Input} {response}
    (h : Execution (Pool.Step effect) p
      (before ++ (i, ⟨.sql (.setStatusQueued id), input, response⟩) :: after) p')
    (htick : p.thread i = requeueTick) :
    ∃ input' ids, (i, ⟨.sql .listExpiredLeases, input', .ok ids⟩) ∈ before ∧ id ∈ ids := by
  have hfollows : (p.thread i).Follows ListedBy QueuesNone := htick ▸ requeue_tick_follows
  rcases Pool.follows h hfollows with hnone | ⟨⟨call, input', response'⟩, hmem, hlisted⟩
  · exact absurd rfl (hnone id)
  · dsimp only at hlisted
    unfold ListedBy at hlisted
    split at hlisted
    next ids hcall =>
        cases hcall
        exact ⟨input', ids, hmem, hlisted⟩
    next => exact hlisted.elim

end MutualCloud.Control
