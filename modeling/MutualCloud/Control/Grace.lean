import MutualCloud.Control.Tick
import MutualCloud.Store.Terminal

/-!
# The grace period of the requeue loop

`requeueLoop` means to leave a lease alone until it has been over for three seconds, so that a late
heartbeat still finds it. It passes a cutoff to `ListExpiredLeases`, which does not use it: the scan
and `SetStatusQueued` compare the expiry with the clock of the database. So a pass on its own keeps
to the grace period exactly when the rows have no lease that is over at the time of the scan and was
not over three seconds before the pass began. Among other threads it does so when the scan finds the
rows like that, and the leases that are granted or renewed after the scan are not over when the pass
comes to their jobs (`requeue_grace_iff`).
-/

namespace MutualCloud.Control

open Go KeyedTable Interaction Labelled Store

/-! ## Passes among other threads -/

/-- The lease of the row had been over for the grace period at time `now`. -/
def GraceOver (row : Row) (now : Time) : Prop :=
  ∃ expiry ∈ row.leaseExpiresAt, expiry + 3 * second ≤ now

/-- What leads from `db` to `db'` puts a leased job back only after its grace period. -/
def GraceHonoured (now : Time) (db db' : DemandJobs) : Prop :=
  ∀ id row row', db.lookup id = some row → db'.lookup id = some row' →
    row.status.Active → row'.status = .queued → GraceOver row now

/-- Every lease that is over at the time `scan`, of a job that can be put back, had been over for
the grace period at time `now`. -/
def OutOfGrace (db : DemandJobs) (scan now : Time) : Prop :=
  ∀ id row, db.lookup id = some row → row.Expired scan → row.retryCount + 1 < 2 ^ 31 →
    GraceOver row now

variable {τ : Type} [DecidableEq τ]

/-- A pass of `requeueLoop` as thread `i` among others. -/
def requeuePass (w : World) (others : τ → Code Unit) (i : τ) :
    Pool τ Call Call.Response World Unit :=
  ⟨w, Function.update others i requeueTick⟩

/-- A step of thread `i` in an interleaving from `p`, with the pools before and after it. -/
structure StepOf (p : Pool τ Call Call.Response World Unit) (history : List (τ × Event)) (i : τ)
    (q : Pool τ Call Call.Response World Unit) (e : Event)
    (q' : Pool τ Call Call.Response World Unit) : Prop where
  step : Pool.Step effect q (i, e) q'
  interleaving : ∃ before after p', history = before ++ (i, e) :: after ∧
    Execution (Pool.Step effect) p before q ∧ Execution (Pool.Step effect) q' after p'

/-- Thread `i` read the clock. A pass does so once, before its statements. -/
def ClockRead (history : List (τ × Event)) (i : τ) (now : Time) : Prop :=
  ∃ input, (i, ⟨.timeNow, input, now⟩) ∈ history

/-! ## One step -/

/-- The statement that a step sends, as an event of the store. -/
def Event.statement : Event → Option Store.Event
  | ⟨.sql s, input, response⟩ => some ⟨s, input.toInput, response⟩
  | ⟨.getJSON _, _, _⟩ | ⟨.putJSON _ _, _, _⟩ | ⟨.delJSON _, _, _⟩ | ⟨.timeNow, _, _⟩
  | ⟨.enqueue _, _, _⟩ => none

/-- A step acts on the database by the statement that it sends, and not at all without one. -/
theorem statement_step {w w' : World} {e : Event} (h : Answers effect w e w') :
    match e.statement with
    | some statement => Store.Step w.db statement w'.db
    | none => w'.db = w.db := by
  obtain ⟨call, input, response⟩ := e
  have hresponse : (effect call input w).1 = response := congrArg Prod.fst h
  obtain rfl : (effect call input w).2 = w' := congrArg Prod.snd h
  cases call with
  | sql => exact Prod.ext hresponse rfl
  | putJSON | delJSON =>
      simp only [Event.statement, effect]
      split <;> rfl
  | getJSON | timeNow | enqueue => rfl

/-- A leased job gets back to the queue by `SetStatusQueued` only. -/
theorem requeue_of_queued {id : String} {e : Store.Event} {row row' : Row}
    (h : RowStep id e (some row) (some row')) (hactive : row.status.Active)
    (hq : row'.status = .queued) :
    e.call = .setStatusQueued id ∧ (∃ rows, e.response = .ok rows) ∧ row.Expired e.input.now ∧
      row.retryCount + 1 < 2 ^ 31 ∧ row' = row.requeued := by
  cases h with
  | idle => exact absurd hq hactive.ne_queued
  | attach => exact absurd hq hactive.ne_queued
  | claim => cases hq
  | renew => cases hq
  | finish _ _ outcome => exact absurd hq outcome.status_terminal.ne_queued
  | requeue _ _ hguard hroom => exact ⟨rfl, ⟨_, rfl⟩, hguard, hroom, rfl⟩

/-! ## A pass on its own -/

/-- A pass on its own keeps to the grace period exactly when its scan finds no lease in it. -/
theorem lone_grace_iff {w : World} {inputs : ℕ → Input} (hfault : ∀ n, (inputs n).fault = none)
    (hclock : ∀ n, (inputs 1).now ≤ (inputs (n + 2)).now) (now : Time) :
    GraceHonoured now w.db (requeueTick.run effect inputs w).state.db ↔
      OutOfGrace w.db (inputs 1).now now := by
  constructor
  · intro hhonoured id row hrow hexpired hroom
    have hafter := tick_rows hfault hclock w id
    rw [hrow, Option.map_some, swept, if_pos ⟨hexpired, hroom⟩] at hafter
    exact hhonoured id row row.requeued hrow hafter hexpired.1 rfl
  · intro hout id row row' hrow hrow' hactive hq
    rw [tick_rows hfault hclock, hrow] at hrow'
    obtain rfl := Option.some.inj hrow'
    by_cases hswept : row.Expired (inputs 1).now ∧ row.retryCount + 1 < 2 ^ 31
    · exact hout id row hrow hswept.1 hswept.2
    · rw [swept, if_neg hswept] at hq
      exact absurd hq hactive.ne_queued

/-! ## A pass among other threads -/

/-- A lease that is granted or renewed after the scan of thread `i` is not over when the thread
sends `SetStatusQueued` for its job. -/
def Outlasting (history : List (τ × Event)) (i : τ) : Prop :=
  ∀ before l between e after, history = before ++ l :: (between ++ (i, e) :: after) →
    (∃ scan, (i, scan) ∈ before ∧ scan.call = .sql .listExpiredLeases) →
    ∀ statement id ttl, l.2.statement = some statement → Leases statement id ttl →
      e.call = .sql (.setStatusQueued id) →
      e.input.now ≤ statement.input.now + seconds ttl * second

/-- What an interleaving does to the database are its statements. -/
theorem statements_execution {p q : Pool τ Call Call.Response World Unit}
    {history : List (τ × Event)} (h : Execution (Pool.Step effect) p history q) :
    Execution Store.Step p.shared.db (history.filterMap fun l => l.2.statement) q.shared.db := by
  refine (Pool.shared_execution h).simulate (I := fun _ => True) World.db
    (fun l => Event.statement l.2) trivial (fun _ _ _ _ _ => trivial) ?_ ?_
  · intro w l w' statement _ hstep hsome
    have hstatement := statement_step hstep
    rwa [hsome] at hstatement
  · intro w l w' _ hstep hnone
    have hsame := statement_step hstep
    rwa [hnone] at hsame

section Interleaved

variable {w : World} {others : τ → Code Unit} {i : τ} {history : List (τ × Event)}

/-- A step that puts a leased job back to the queue is a `SetStatusQueued` that finds the lease
over. -/
theorem requeue_of_step {w w' : World} {e : Event} (hstep : Answers effect w e w') {id : String}
    {row row' : Row} (hrow : w.db.lookup id = some row) (hrow' : w'.db.lookup id = some row')
    (hactive : row.status.Active) (hq : row'.status = .queued) :
    e.call = .sql (.setStatusQueued id) ∧ row.Expired e.input.now ∧
      row.retryCount + 1 < 2 ^ 31 := by
  have hdb := statement_step hstep
  obtain ⟨call, input, response⟩ := e
  cases call with
  | sql s =>
      have hrs := row_step hdb id
      rw [hrow, hrow'] at hrs
      obtain ⟨hcall, -, hexpired, hroom, -⟩ := requeue_of_queued hrs hactive hq
      exact ⟨congrArg Call.sql hcall, hexpired, hroom⟩
  | getJSON | putJSON | delJSON | timeNow | enqueue =>
      have hsame : w'.db = w.db := hdb
      rw [hsame, hrow] at hrow'
      rw [← Option.some.inj hrow'] at hq
      exact absurd hq hactive.ne_queued

/-- What the scan lists has a lease that is over. -/
theorem scan_step {w w' : World} {input : Input} {ids : List String}
    (hstep : Answers effect w ⟨.sql .listExpiredLeases, input, .ok ids⟩ w') {id : String}
    (hid : id ∈ ids) :
    input.fault = none ∧ w' = w ∧ ∃ row, w.db.lookup id = some row ∧ row.Expired input.now := by
  have hdb : Store.Step w.db ⟨.listExpiredLeases, input.toInput, .ok ids⟩ w'.db :=
    statement_step hstep
  have hfault : input.fault = none := fault_none_of_ok hdb rfl
  have hscan : effect (.sql .listExpiredLeases) input w = (.ok ((w.db.entries.filter fun entry =>
      Row.Expired input.now entry.2).map Sigma.fst), w) := by
    simp only [effect, Store.effect, hfault, Stmt.exec]
  have hanswer := hscan.symm.trans hstep
  refine ⟨hfault, (congrArg Prod.snd hanswer).symm, mem_expired_iff.mp ?_⟩
  rw [Except.ok.inj (congrArg Prod.fst hanswer)]
  exact hid

/-- A pass among other threads keeps to the grace period when its scan finds no lease in it, and no
lease that is set later runs out under it. -/
theorem interleaved_grace
    (hscan : ∀ q e q' now, StepOf (requeuePass w others i) history i q e q' →
      ClockRead history i now → e.call = .sql .listExpiredLeases → e.input.fault = none →
      OutOfGrace q.shared.db e.input.now now)
    (hlater : Outlasting history i) {q q' : Pool τ Call Call.Response World Unit} {e : Event}
    {now : Time} (hof : StepOf (requeuePass w others i) history i q e q')
    (hclock : ClockRead history i now) : GraceHonoured now q.shared.db q'.shared.db := by
  intro id row row' hrow hrow' hactive hq
  obtain ⟨hstep, before, after, p', rfl, hbefore, hafter⟩ := hof
  obtain ⟨hcall, hexpired, hroom⟩ :=
    requeue_of_step hstep.choose_spec.2.1 hrow hrow' hactive hq
  obtain ⟨call, input, response⟩ := e
  obtain rfl : call = .sql (.setStatusQueued id) := hcall
  -- the pass has listed the job before
  have hwhole := (hbefore.snoc hstep).trans hafter
  rw [← List.append_cons] at hwhole
  obtain ⟨input', ids, hlisted, hid⟩ := listed_before hwhole (Function.update_self ..)
  obtain ⟨first, between, rfl⟩ := List.append_of_mem hlisted
  obtain ⟨p₁, p₂, hfirst, hstep₁, hbetween⟩ := hbefore.split_at
  obtain ⟨hfault, hsame, old, hold, hover⟩ := scan_step hstep₁.choose_spec.2.1 hid
  have hsince := statements_execution hbetween
  rw [hsame] at hsince
  have hmono := retries_mono hsince hold hrow
  have hgrace : GraceOver old now :=
    hscan p₁ _ p₂ now ⟨hstep₁, first, _, _, by simp, hfirst, hbetween.trans
      ((Execution.single hstep).trans hafter)⟩ hclock rfl hfault id old hold hover (by omega)
  -- the expiry that is over now is the one that the scan saw
  obtain ⟨-, -, x, hx, hlt⟩ := hexpired
  rcases expiry_since hsince hrow hx with ⟨old', hold', hx'⟩ | ⟨statement, hmem, ttl, hset, rfl⟩
  · obtain rfl : old = old' := Option.some.inj (hold.symm.trans hold')
    obtain ⟨expiry, hexpiry, hle⟩ := hgrace
    obtain rfl : x = expiry := Option.some.inj (hx'.symm.trans hexpiry)
    exact ⟨x, hx, hle⟩
  · obtain ⟨l, hl, hstatement⟩ := List.mem_filterMap.mp hmem
    obtain ⟨soon, late, rfl⟩ := List.append_of_mem hl
    have hle := hlater (first ++ (i, ⟨.sql .listExpiredLeases, input', .ok ids⟩) :: soon) l late
      ⟨.sql (.setStatusQueued id), input, response⟩ after (by simp)
      ⟨⟨.sql .listExpiredLeases, input', .ok ids⟩, by simp, rfl⟩ statement id ttl hstatement hset
      rfl
    exact absurd hlt (not_lt.mpr hle)

end Interleaved

/-- The grace period of the requeue loop. A pass on its own, when no statement fails and the clock
of the database does not go back while it runs, puts a leased job back to the queue only when its
lease was over for three seconds at the time the pass read, if and only if that is so of every lease
that is over at the time of its scan. In every interleaving with any other threads it is enough that
the rows are so at the scan, and that no lease which is granted or renewed after the scan is over
when the pass sends `SetStatusQueued` for its job. -/
theorem requeue_grace_iff (w : World) :
    (∀ inputs : ℕ → Input, (∀ n, (inputs n).fault = none) →
      (∀ n, (inputs 1).now ≤ (inputs (n + 2)).now) →
      (GraceHonoured (inputs 0).now w.db (requeueTick.run effect inputs w).state.db ↔
        OutOfGrace w.db (inputs 1).now (inputs 0).now)) ∧
    ∀ (others : τ → Code Unit) (i : τ) (history : List (τ × Event)),
      (∀ q e q' now, StepOf (requeuePass w others i) history i q e q' → ClockRead history i now →
        e.call = .sql .listExpiredLeases → e.input.fault = none →
        OutOfGrace q.shared.db e.input.now now) →
      Outlasting history i →
      ∀ q e q' now, StepOf (requeuePass w others i) history i q e q' → ClockRead history i now →
        GraceHonoured now q.shared.db q'.shared.db := by
  refine ⟨fun inputs hfault hclock => lone_grace_iff hfault hclock (inputs 0).now, ?_⟩
  intro others i history hscan hlater q e q' now hof hclock
  exact interleaved_grace hscan hlater hof hclock

namespace Sample

/-- The lease of the sample job is over for one nanosecond. -/
def justOver : Input := { now := 15000000003 }

/-- The lease of the sample job is over for three seconds. -/
def graceOver : Input := { now := 18000000002 }

/-- The sample job is leased. -/
def leasedWorld : World := ⟨(play Store.Sample.claimed).2, fun _ => none, [], false⟩

/-- A pass on its own. -/
def lonePass : Pool Unit Call Call.Response World Unit :=
  requeuePass leasedWorld (fun _ => pure ()) ()

/-- The pass after so many steps, all under the same input. -/
def passed (input : Input) (n : ℕ) :
    List (Unit × Event) × Pool Unit Call Call.Response World Unit :=
  Pool.schedule effect (List.replicate n ((), input)) lonePass

/-- A row of the leased table is that of the sample job. -/
theorem leased_row {id : String} {row : Row} (h : leasedWorld.db.lookup id = some row) :
    row = Store.Sample.claimedRow := by
  have hentries : leasedWorld.db.entries = [⟨"job", Store.Sample.claimedRow⟩] := by decide +kernel
  have hmem := AList.mem_lookup_iff.mp h
  rw [hentries] at hmem
  cases List.mem_singleton.mp hmem
  rfl

/-- Three seconds after its expiry the lease of the sample job is out of grace. -/
theorem leased_out_of_grace : OutOfGrace leasedWorld.db 18000000002 18000000002 := by
  intro id row hrow _ _
  obtain rfl := leased_row hrow
  exact ⟨15000000002, rfl, by decide⟩

/-- The three steps of the pass up to the requeue. -/
theorem passed_history : (passed graceOver 3).1 =
    [((), ⟨.timeNow, graceOver, (18000000002 : Time)⟩),
      ((), ⟨.sql .listExpiredLeases, graceOver, .ok ["job"]⟩),
      ((), ⟨.sql (.setStatusQueued "job"), graceOver, .ok (1 : ℕ)⟩)] := rfl

/-- The scan of the pass finds the table as it was. -/
theorem passed_scan {q q' : Pool Unit Call Call.Response World Unit} {e : Event}
    (h : StepOf lonePass (passed graceOver 3).1 () q e q')
    (hcall : e.call = .sql .listExpiredLeases) :
    e.input = graceOver ∧ q.shared.db = leasedWorld.db := by
  obtain ⟨-, before, after, p', heq, hbefore, -⟩ := h
  rw [passed_history] at heq
  have hstatements := statements_execution hbefore
  match before, heq with
  | [], heq => cases heq; cases hcall
  | [_], heq =>
      cases heq
      exact ⟨rfl, hstatements.of_nil⟩
  | [_, _], heq => cases heq; cases hcall
  | _ :: _ :: _ :: _, heq => simp at heq

end Sample

/-- Three seconds after its expiry a pass puts the sample job back to the queue, and keeps to the
grace period, on its own and step by step among threads that have nothing to do. -/
theorem requeue_grace_iff_over :
    (requeueTick.run effect (fun _ => Sample.graceOver) Sample.leasedWorld).state.db.lookup "job" =
        some Store.Sample.claimedRow.requeued ∧
      GraceHonoured 18000000002 Sample.leasedWorld.db
        (requeueTick.run effect (fun _ => Sample.graceOver) Sample.leasedWorld).state.db ∧
      ∀ q e q' now, StepOf Sample.lonePass (Sample.passed Sample.graceOver 3).1 () q e q' →
        ClockRead (Sample.passed Sample.graceOver 3).1 () now →
        GraceHonoured now q.shared.db q'.shared.db := by
  obtain ⟨halone, hamong⟩ := @requeue_grace_iff Unit _ Sample.leasedWorld
  refine ⟨by decide +kernel, (halone (fun _ => Sample.graceOver) (fun _ => rfl)
    fun _ => le_refl _).mpr Sample.leased_out_of_grace, ?_⟩
  refine hamong (fun _ => pure ()) () _ ?_ ?_
  · intro q e q' now hof ⟨input, hread⟩ hcall _
    obtain ⟨hinput, hdb⟩ := Sample.passed_scan hof hcall
    obtain rfl : now = 18000000002 := by
      rw [Sample.passed_history] at hread
      simp only [List.mem_cons, Prod.mk.injEq] at hread
      grind
    rw [hinput, hdb]
    exact Sample.leased_out_of_grace
  · intro before l between e after heq _ statement id ttl hstatement hset
    have hl : l ∈ (Sample.passed Sample.graceOver 3).1 := by simp [heq]
    rw [Sample.passed_history] at hl
    simp only [List.mem_cons, List.not_mem_nil, or_false] at hl
    rcases hl with rfl | rfl | rfl
    · cases hstatement
    · cases hstatement
      rcases hset.2 with ⟨_, hcall⟩ | ⟨_, _, hcall⟩ <;> cases hcall
    · cases hstatement
      rcases hset.2 with ⟨_, hcall⟩ | ⟨_, _, hcall⟩ <;> cases hcall

/-- A pass puts the sample job back to the queue as soon as its lease is over. -/
theorem requeue_within_grace :
    ∃ e, StepOf Sample.lonePass (Sample.passed Sample.justOver 3).1 ()
        (Sample.passed Sample.justOver 2).2 e (Sample.passed Sample.justOver 3).2 ∧
      ClockRead (Sample.passed Sample.justOver 3).1 () 15000000003 ∧
      ¬ GraceHonoured 15000000003 (Sample.passed Sample.justOver 2).2.shared.db
        (Sample.passed Sample.justOver 3).2.shared.db := by
  have hstep : Pool.Step effect (Sample.passed Sample.justOver 2).2
      ((), ⟨.sql (.setStatusQueued "job"), Sample.justOver, .ok (1 : ℕ)⟩)
      (Sample.passed Sample.justOver 3).2 :=
    ⟨_, rfl, rfl, rfl⟩
  refine ⟨_, ⟨hstep, (Sample.passed Sample.justOver 2).1, [], _, rfl, ?_, .refl⟩,
    ⟨Sample.justOver, ?_⟩, ?_⟩
  · exact Pool.schedule_execution effect _ _
  · exact List.mem_cons_self
  · intro hhonoured
    obtain ⟨expiry, hexpiry, hle⟩ := hhonoured "job" Store.Sample.claimedRow
      Store.Sample.claimedRow.requeued rfl rfl (.inl rfl) rfl
    obtain rfl : 15000000002 = expiry := Option.some.inj hexpiry
    exact absurd hle (by decide)

end MutualCloud.Control
