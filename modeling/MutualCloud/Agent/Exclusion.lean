import MutualCloud.Agent.Outcomes

/-!
# One executor for a job

A container runs on after the lease of its call is lost, so two agents can run one job at a time
(`two_executors`). As long as heartbeats arrive in time, none of those whose loops have given up is
in its container run (`System.executor_stopped`). What brings two executors about is a requeue, and
nothing else: as long as no requeue takes a lease away from a call between its claim and its report,
every such call holds the lease of its row, and no two calls for one job are in their container runs
(`one_executor`).
-/

namespace MutualCloud.Agent

open Go KeyedTable Interaction Labelled Store Control

/-! ## Executions whose heartbeats have ended -/

section Stopped

variable {τ : Type} [DecidableEq τ] {setup : Setup τ} {s : System τ}
  {history : List (Action τ × Option Store.Event)} {token : τ → Option Int}
  {tells : τ → Option Outcome}

omit [DecidableEq τ] in
/-- When the row of a job is leased to another agent, a newer token than that of the call has been
issued. -/
theorem Ledger.superseded (h : Ledger setup history s token tells)
    (hrun : Run (storeHistory history) s.world.db) {i : τ} (hclaimed : (s.locals i).stage.Claimed)
    {row : Row} (hrow : s.world.db.lookup (setup.candidate i).jobID = some row) {b : String}
    (hagent : row.leaseAgent = some b) (hother : (setup.candidate i).agentID ≠ b) :
    (s.locals i).lease.version < row.leaseToken := by
  have hentry := h.entry i _ (h.held i (.inl hclaimed))
  obtain ⟨row', hrow', hle⟩ := hentry.row
  rw [hrow] at hrow'
  cases hrow'
  refine lt_of_le_of_ne hle fun hsame => hother ?_
  exact (agent_of_token hentry hrun hrow hagent hsame.symm).symm

/-- At most one active executor, where heartbeats arrive in time. In every run in which no loop
sees `maxFail` failures in a row before its job context is cancelled, no execution whose loop has
given up is inside its container run. So, when the row is leased to agent `b` and the loop of
another agent's execution has given up, only `b` can be executing the job, and the other one, if it
is not over, has an outdated token. -/
theorem System.executor_stopped {actions : List (Action τ)}
    (hexec : Execution (fun s a s' => System.next setup s a = some s' ∧ s.beatsInTime a)
      System.initial actions s) :
    (∀ i, (s.locals i).loop = .gaveUp → ¬ s.Executing i) ∧
    (∀ id row b, s.world.db.lookup id = some row → row.leaseAgent = some b →
      ∀ i j, (setup.candidate i).jobID = id → (setup.candidate j).jobID = id →
        (setup.candidate i).agentID ≠ b → (setup.candidate j).agentID = b →
        (s.locals i).loop = .gaveUp →
        (s.Executing i ∨ s.Executing j → s.Executing j ∧ ¬ s.Executing i) ∧
        ((s.locals i).stage.Claimed → (s.locals i).lease.version < row.leaseToken)) := by
  have hok : ∀ i, (s.locals i).Ok :=
    hexec.invariant (I := fun s => ∀ i, (s.locals i).Ok) (fun _ => Local.ok_initial)
      fun _ _ _ hs hstep => System.ok_step hstep.1 hstep.2 hs
  have hstopped : ∀ i, (s.locals i).loop = .gaveUp → ¬ s.Executing i := by
    intro i hgave hrunning
    have hover := (hok i).ended ((hok i).gave_up hgave)
    rw [show (s.locals i).stage = .running from hrunning] at hover
    exact hover
  refine ⟨hstopped, ?_⟩
  intro id row b hrow hagent i j hi _ hother _ hgave
  refine ⟨fun hexecuting => ?_, fun hclaimed => ?_⟩
  · exact ⟨hexecuting.resolve_left (hstopped i hgave), hstopped i hgave⟩
  · obtain ⟨history, -, hallowed⟩ := System.acts_of_allowed hexec
    have hacts := hallowed.imp fun _ _ _ hstep => hstep.1
    obtain ⟨token, tells, h⟩ := ledger_run hacts
    subst hi
    exact h.superseded (System.store_run hacts) hclaimed hrow hagent hother

end Stopped

namespace Sample

/-- The container run of the agent `a` ends before its heartbeats are lost. -/
def inTime : List (Action Bool) :=
  .createJob Store.Sample.job { now := 1 } :: claimAndRun true 0 2 ++
    [.move true (.containerEnded false []), .move true .cancelJob] ++ loseBeats true

/-- The heartbeats of the agent `a` are lost during its container run; the lease expires, the job
is requeued, and the agent `b` claims and runs it. -/
def takeover : List (Action Bool) :=
  .createJob Store.Sample.job { now := 1 } :: claimAndRun true 0 2 ++ loseBeats true ++
    List.replicate 8 (.requeue { now := 15000000003 }) ++ claimAndRun false 4 15000000004

end Sample

/-- A loop may give up after the container run. -/
theorem executor_stopped_in_time :
    ∃ s, System.play Sample.setup System.beatsInTime Sample.inTime System.initial = some s ∧
      (s.locals true).loop = .gaveUp ∧ ¬ s.Executing true := by
  have hplay : ∃ s, System.play Sample.setup System.beatsInTime Sample.inTime System.initial =
      some s ∧ (s.locals true).loop = .gaveUp := ⟨_, rfl, rfl⟩
  obtain ⟨s, hs, hgave⟩ := hplay
  exact ⟨s, hs, hgave, (System.executor_stopped (System.play_execution hs)).1 true hgave⟩

/-- The agent `a` has given up its heartbeats and is still in its container run, while the row is
leased to the agent `b`, which is in its container run for the same job. -/
theorem two_executors :
    ∃ s, Execution (fun s a s' => System.next Sample.setup s a = some s') System.initial
        Sample.takeover s ∧
      (s.locals true).loop = .gaveUp ∧ s.Executing true ∧ s.Executing false ∧
      (s.world.db.lookup "job").map Row.leaseAgent = some (some "b") := by
  have hplay : ∃ s, System.play Sample.setup (fun _ _ => true) Sample.takeover System.initial =
      some s ∧ (s.locals true).loop = .gaveUp ∧ s.Executing true ∧ s.Executing false ∧
        (s.world.db.lookup "job").map Row.leaseAgent = some (some "b") :=
    ⟨_, rfl, rfl, rfl, rfl, rfl⟩
  obtain ⟨s, hs, hrest⟩ := hplay
  exact ⟨s, System.execution_of_play hs, hrest⟩

/-! ## Calls that keep their leases -/

/-- A leased row stays leased under its agent and its token, unless the agent finishes the job or
the job is put back to the queue. -/
theorem leased_step {db db' : DemandJobs} {e : Store.Event} {id a : String} {t : Int}
    (hsound : Store.Sound db) (hleased : LeasedTo id a t db) (hstep : Store.Step db e db') :
    LeasedTo id a t db' ∨ (∃ u outcome, e.call = .finish id a u outcome ∧ t ≤ int64 u) ∨
      e.requeued id = true := by
  obtain ⟨row, hrow, hagent, htoken⟩ := hleased
  have hrowStep := row_step hstep id
  rw [hrow] at hrowStep
  generalize hnew : db'.lookup id = new at hrowStep
  cases hrowStep with
  | idle => exact .inl ⟨row, hnew, hagent, htoken⟩
  | attach => exact .inl ⟨_, hnew, hagent, htoken⟩
  | claim _ _ _ _ hguard _ =>
      rw [(hsound id row hrow).agent_none_of_claimable hguard] at hagent
      cases hagent
  | renew => exact .inl ⟨_, hnew, hagent, htoken⟩
  | finish other u outcome _ _ hguard =>
      rcases hguard.1 with hother | hnone
      · obtain rfl : other = a := Option.some.inj (hother.symm.trans hagent)
        exact .inr (.inl ⟨u, outcome, rfl, by rw [← htoken]; exact hguard.2⟩)
      · rw [hnone] at hagent
        cases hagent
  | requeue => exact .inr (.inr (by simp [Store.Event.requeued, Stmt.requeued]))

section Exclusion

variable {τ : Type} [DecidableEq τ] {setup : Setup τ} {s s' : System τ}
  {history : List (Action τ × Option Store.Event)} {l : Action τ × Option Store.Event}
  {token : τ → Option Int} {tells : τ → Option Outcome}

/-- The call is between its claim and its report, and this is the token of its lease, or may be as
long as the call waits for the answer to its claim. -/
def Local.MayHold (l : Local) (t : Int) : Prop :=
  l.stage.Engaged ∧ ((∃ n, l.stage = .claiming n) ∨ l.lease.version = t)

/-- The action does not put a job back to the queue whose lease is that of a call between its claim
and its report. -/
def System.Spares (setup : Setup τ) (s : System τ) (a : Action τ) : Prop :=
  ∀ e i row, s.statement a = some e → e.requeued (setup.candidate i).jobID = true →
    s.world.db.lookup (setup.candidate i).jobID = some row →
    row.leaseAgent = some (setup.candidate i).agentID → ¬ (s.locals i).MayHold row.leaseToken

/-- Every call between its claim and its report holds the lease of its token. -/
def Holding (setup : Setup τ) (s : System τ) (token : τ → Option Int) : Prop :=
  ∀ i t, token i = some t → (s.locals i).stage.Engaged →
    LeasedTo (setup.candidate i).jobID (setup.candidate i).agentID t s.world.db

/-- A call between its claim and its report was there before the step, if it had its token then. -/
theorem engaged_before (h : Ledger setup history s token tells)
    (hnext : s.next setup l.1 = some s') {i : τ} {t : Int} (htoken : token i = some t)
    (hengaged : (s'.locals i).stage.Engaged) : (s.locals i).stage.Engaged := by
  constructor
  · intro hstart
    rw [h.start i hstart] at htoken
    cases htoken
  · intro hreports
    exact hengaged.2 (stays_reporting hnext hreports).1

omit [DecidableEq τ] in
/-- A call between its claim and its report may hold the lease of its token. -/
theorem may_hold (h : Ledger setup history s token tells) {i : τ} {t : Int}
    (htoken : token i = some t) (hengaged : (s.locals i).stage.Engaged) :
    (s.locals i).MayHold t := by
  refine ⟨hengaged, ?_⟩
  by_cases hclaimed : (s.locals i).stage.Claimed
  · exact .inr (Option.some.inj ((h.held i (.inl hclaimed)).symm.trans htoken))
  · cases hstage : (s.locals i).stage with
    | claiming n => exact .inl ⟨n, rfl⟩
    | start => exact absurd hstage hengaged.1
    | done => exact absurd (by rw [hstage]; trivial) hengaged.2
    | waitingManifest | preparing | running | ended | abandoning | reporting | reported =>
        exact absurd (by rw [hstage]; trivial) hclaimed

/-- The calls keep the leases of their tokens, unless a requeue takes one away. -/
theorem Holding.step (hholding : Holding setup s token) (h : Ledger setup history s token tells)
    (hsound : Store.Sound s.world.db) (hacts : System.Acts setup s l s')
    (hspares : s.Spares setup l.1) : Holding setup s' (s.enter setup l.1 token) := by
  intro i t ht hengaged
  have hstore := hacts.store
  rcases enters_step hacts token i with hsame | ⟨n, ttl, input, t', expiry, -, -, hnew, he⟩
  · rw [hsame] at ht
    have hbefore := engaged_before h hacts.1 ht hengaged
    have hleased := hholding i t ht hbefore
    split at hstore
    next e he =>
        rcases leased_step hsound hleased hstore with hkept | ⟨u, outcome, hcall, hle⟩ | hrequeued
        · exact hkept
        · -- the agent finishes the job by the call that holds the token, and that one reports
          obtain ⟨j, hj⟩ := (h.acts_attributed hacts he).reports _ _ u outcome hcall
          obtain ⟨row, hrow, -, rfl⟩ := hleased
          have hversion := hj.version_eq h hrow hle
          have hsame : i = j := by
            refine h.distinct i j _ hj.job.symm ht ?_
            rw [← hversion]
            exact (hj.entered h).1
          exact absurd (hsame ▸ hj.stage) hbefore.2
        · obtain ⟨row, hrow, hagent, rfl⟩ := hleased
          exact absurd (may_hold h ht hbefore)
            (hspares e i row (by rw [← hacts.2]; exact he) hrequeued hrow hagent)
    next =>
        rw [hstore]
        exact hleased
  · obtain rfl : t' = t := Option.some.inj (hnew.symm.trans ht)
    rw [he] at hstore
    exact leased_of_claim hstore

/-- One executor for a job. In every execution in which no requeue takes a lease away from a call
between its claim and its report, a call that is in its container run holds the lease of its row
under the token that it was granted, and no two calls are in their container runs for one job. -/
theorem one_executor {actions : List (Action τ)}
    (hexec : Execution (fun s a s' => System.next setup s a = some s' ∧ s.Spares setup a)
      System.initial actions s) :
    (∀ i, s.Executing i → LeasedTo (setup.candidate i).jobID (setup.candidate i).agentID
      (s.locals i).lease.version s.world.db) ∧
    ∀ i j, (setup.candidate i).jobID = (setup.candidate j).jobID → s.Executing i →
      s.Executing j → i = j := by
  obtain ⟨history, -, hacts⟩ := System.acts_of_allowed hexec
  obtain ⟨token, tells, h, hholding⟩ : ∃ token tells, Ledger setup history s token tells ∧
      Holding setup s token := by
    refine hacts.invariant_history (I := fun history s => ∃ token tells,
      Ledger setup history s token tells ∧ Holding setup s token)
      ⟨_, _, ledger_initial setup, fun _ _ ht => by cases ht⟩ ?_
    intro before s l s' hbefore hledger hstep
    obtain ⟨token, tells, h, hholding⟩ := hledger
    have hsound := (System.store_run (hbefore.imp fun _ _ _ hstep => hstep.1)).sound
    exact ⟨_, _, h.step hstep.1 hsound, hholding.step h hsound hstep.1 hstep.2⟩
  have hleased : ∀ i, s.Executing i → token i = some (s.locals i).lease.version ∧
      LeasedTo (setup.candidate i).jobID (setup.candidate i).agentID
        (s.locals i).lease.version s.world.db := by
    intro i hrunning
    have hstage : (s.locals i).stage = .running := hrunning
    have htoken := h.held i (.inl (by rw [hstage]; trivial))
    exact ⟨htoken, hholding i _ htoken (by simp [hstage, Stage.Engaged, Stage.Reports])⟩
  refine ⟨fun i hi => (hleased i hi).2, ?_⟩
  intro i j hjob hi hj
  obtain ⟨htoken, row, hrow, -, hversion⟩ := hleased i hi
  obtain ⟨htoken', row', hrow', -, hversion'⟩ := hleased j hj
  rw [hjob, hrow'] at hrow
  cases hrow
  exact h.distinct i j _ hjob (by rw [htoken, ← hversion]) (by rw [htoken', ← hversion'])

end Exclusion

namespace Sample

/-- Whether the action puts no job back to the queue. -/
def requeuesNothing (s : System Bool) : Action Bool → Bool
  | .serve n _ =>
      match s.conns n with
      | some (.serving (.call (.sql (.setStatusQueued _)) _)) => false
      | _ => true
  | .requeue _ =>
      match s.requeuer with
      | .call (.sql (.setStatusQueued _)) _ => false
      | _ => true
  | _ => true

/-- An action that puts no job back to the queue takes no lease away. -/
theorem spares_of_requeues_nothing {s : System Bool} {a : Action Bool}
    (h : requeuesNothing s a = true) : s.Spares setup a := by
  intro e i row he hrequeued
  obtain ⟨call, input, response⟩ := e
  cases call with
  | setStatusQueued id =>
      cases a with
      | createJob | attachManifest | deliver | lose | move => cases he
      | serve n input =>
          simp only [System.statement] at he
          split at he
          next c k hconn =>
              have hc : c = .sql (.setStatusQueued id) := System.call_of_statement he
              subst hc
              simp [requeuesNothing, hconn] at h
          next => cases he
      | requeue input =>
          simp only [System.statement] at he
          split at he
          next c k hcode =>
              have hc : c = .sql (.setStatusQueued id) := System.call_of_statement he
              subst hc
              simp [requeuesNothing, hcode] at h
          next => cases he
  | createJob | getJob | attachManifest | tryClaim | claimRefusal | heartbeat | finish
  | listExpiredLeases => cases response <;> cases hrequeued

/-- The agent `a` runs the job, `requeueLoop` finds no lease that has run out, and the agent `b`
claims the job in vain. -/
def contended : List (Action Bool) :=
  .createJob Store.Sample.job { now := 1 } :: claimAndRun true 0 2 ++
    List.replicate 4 (.requeue { now := 3 }) ++
    [.move false .tryClaim, .deliver 1, .serve 1 { now := 4 }, .move false .claimError]

end Sample

/-- The agent `a` is in its container run, holds the lease, and is alone. -/
theorem one_executor_contended :
    ∃ s : System Bool, s.Executing true ∧ (s.locals false).stage = .done ∧
      LeasedTo "job" "a" (s.locals true).lease.version s.world.db := by
  have hplay : ∃ s, System.play Sample.setup Sample.requeuesNothing Sample.contended
      System.initial = some s ∧ s.Executing true ∧ (s.locals false).stage = .done :=
    ⟨_, rfl, rfl, rfl⟩
  obtain ⟨s, hs, hrunning, hdone⟩ := hplay
  have hexec : Execution (fun s a s' => System.next Sample.setup s a = some s' ∧
      s.Spares Sample.setup a) System.initial Sample.contended s :=
    (System.play_execution hs).imp fun _ _ _ hstep =>
      ⟨hstep.1, Sample.spares_of_requeues_nothing hstep.2⟩
  exact ⟨s, hrunning, hdone, (one_executor hexec).1 true hrunning⟩

end MutualCloud.Agent
