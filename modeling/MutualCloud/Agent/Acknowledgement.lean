import MutualCloud.Agent.Outcomes
import MutualCloud.Store.Progress

/-!
# What an acknowledged report means

`Finish` of the store does not look at the number of rows that it changed, and `finishHandler`
answers 204 in either case. So an agent whose report was acknowledged cannot tell whether it was
recorded. What it may rely on is `acknowledged_report`: the report is on record, or a newer token of
the job has been issued, and somebody else runs the job.
-/

namespace MutualCloud.Agent

open Go KeyedTable Interaction Labelled Store Control

/-! ## The handler of a report -/

/-- The step is the `Finish` of the call, and it did not fail. -/
def Executed (call : FinishCall) : (c : Call) → c.Response → Prop
  | .sql (.finish id agentID token outcome), .ok _ => call = ⟨id, agentID, token, outcome⟩
  | _, _ => False

theorem Executed.call_eq {call : FinishCall} {c : Call} {r : c.Response} (h : Executed call c r) :
    c = .sql (.finish call.id call.agentID call.token call.outcome) := by
  unfold Executed at h
  split at h
  · rw [h]
  · exact h.elim

/-- The handler acknowledges nothing unless the `Finish` of the call was executed. -/
def AckAfter (call : FinishCall) : Code Reply → Prop
  | .done r => r ≠ .noContent
  | .call c k => ∀ r, ¬ Executed call c r → AckAfter call (k r)

/-- What the store is told of a report. -/
def Candidate.finishCall (c : Candidate) (lease : TaskLease)
    (r : String × List (String × String)) : FinishCall :=
  ⟨c.jobID, c.agentID, uint64 lease.version, reportOutcome r⟩

/-- `finishHandler` acknowledges a report only after the `Finish` of the report. -/
theorem report_ack (env : Env) (ns : String) {c : Candidate} {lease : TaskLease} {status : String}
    {metrics : List (String × String)} (hpos : 1 ≤ lease.version) (hlt : lease.version < 2 ^ 63) :
    AckAfter (c.finishCall lease (status, metrics))
      (finishHandler env ns (reportRequest c lease status metrics)) := by
  unfold finishHandler
  cases hreq : finishRequest env (reportRequest c lease status metrics) with
  | error reply =>
      obtain ⟨code, message, rfl⟩ := finish_request_error hreq
      intro heq
      cases heq
  | ok call =>
      obtain ⟨hid, hagent, htoken, houtcome⟩ := report_call hpos hlt hreq
      have hcall : call = c.finishCall lease (status, metrics) := by
        cases call
        simp_all [Candidate.finishCall, reportOutcome]
      intro response hresponse
      cases response with
      | error e =>
          intro heq
          cases heq
      | ok n => exact absurd hcall.symm hresponse

/-! ## What the store has made of it -/

/-- The report is on record, or a newer token of the job has been issued. -/
def Settled (db : DemandJobs) (call : FinishCall) : Prop :=
  ∃ row, db.lookup call.id = some row ∧
    (row.status.Terminal ∧ row.result = call.outcome.result ∨ int64 call.token < row.leaseToken)

section Settled

variable {τ : Type} [DecidableEq τ] {setup : Setup τ} {s s' : System τ}
  {history : List (Action τ × Option Store.Event)} {l : Action τ × Option Store.Event}
  {token : τ → Option Int} {tells : τ → Option Outcome}

/-- What is settled stays settled. -/
theorem Settled.step {call : FinishCall} (hsettled : Settled s.world.db call)
    (h : Ledger setup history s token tells) (hrecorded : Recorded setup history s tells)
    (hsound : Store.Sound s.world.db) (hacts : System.Acts setup s l s') :
    Settled s'.world.db call := by
  obtain ⟨row, hrow, ⟨hterminal, hresult⟩ | hnewer⟩ := hsettled
  · obtain ⟨row', hrow', hterminal', -, hkept⟩ :=
      result_kept_step h hrecorded hsound hacts hrow hterminal
    exact ⟨row', hrow', .inl ⟨hterminal', hkept.trans hresult⟩⟩
  · have hstore := hacts.store
    split at hstore
    next e he =>
        obtain ⟨row', hrow', hmono⟩ := token_mono (.single hstore) hsound hrow
        exact ⟨row', hrow', .inr (hnewer.trans_le hmono)⟩
    next => exact ⟨row, by rw [hstore]; exact hrow, .inr hnewer⟩

omit [DecidableEq τ] in
/-- A `Finish` that did not fail settles the report. -/
theorem settled_of_executed {i : τ} {c : Call} {input : Control.Input} {lease : TaskLease}
    {r : String × List (String × String)} (hentry : Entry setup history s i lease.version)
    (hrun : Run (storeHistory history) s.world.db)
    (hexecuted : Executed ((setup.candidate i).finishCall lease r) c
      (Control.effect c input s.world).1) :
    Settled (Control.effect c input s.world).2.db ((setup.candidate i).finishCall lease r) := by
  have hpos := hentry.pos
  have hversion : int64 (uint64 lease.version) = lease.version :=
    int64_uint64 (by omega) hentry.lt
  obtain rfl := hexecuted.call_eq
  rcases @finish_cases s.world.db (setup.candidate i).jobID (setup.candidate i).agentID
    (uint64 lease.version) (reportOutcome r) input.toInput with
    ⟨row, hrow, -, heffect⟩ | ⟨hnone, heffect⟩ | ⟨e, heffect⟩
  · have hsql := @effect_sql _ input s.world _ _ heffect
    refine ⟨row.finish (reportOutcome r), ?_, .inl ⟨(reportOutcome r).status_terminal, rfl⟩⟩
    simp only [Candidate.finishCall, hsql]
    exact AList.lookup_insert _
  · -- the row passes the guard, unless its token is above that of the call
    have hsql := @effect_sql _ input s.world _ _ heffect
    obtain ⟨row, hrow, hle⟩ := hentry.row
    refine ⟨row, ?_, .inr ?_⟩
    · simp only [Candidate.finishCall, hsql]
      exact hrow
    · simp only [Candidate.finishCall, hversion]
      by_contra hnewer
      have hsame : row.leaseToken = lease.version := by omega
      refine hnone row hrow ⟨?_, by rw [hversion, hsame]⟩
      cases hagent : row.leaseAgent with
      | none => exact .inr rfl
      | some b => exact .inl (by rw [agent_of_token hentry hrun hrow hagent hsame])
  · have hsql := @effect_sql _ input s.world _ _ heffect
    simp only [Candidate.finishCall, hsql] at hexecuted
    exact hexecuted.elim

/-! ## From the report to the reply -/

/-- The request of a report is settled, or will not be acknowledged before it is. -/
def Acked (setup : Setup τ) (s : System τ) (n : ℕ) (call : FinishCall) : Prop :=
  n < s.fresh ∧ ∀ code, s.pending setup n = some code → AckAfter call code ∨ Settled s.world.db call

/-- A request of a report goes on to be settled before it is acknowledged. -/
theorem Acked.step {i : τ} {r : String × List (String × String)} {n : ℕ} {lease : TaskLease}
    (hacked : Acked setup s n ((setup.candidate i).finishCall lease r))
    (h : Ledger setup history s token tells) (hrecorded : Recorded setup history s tells)
    (hrun : Run (storeHistory history) s.world.db)
    (hentry : Entry setup history s i lease.version) (hacts : System.Acts setup s l s') :
    Acked setup s' n ((setup.candidate i).finishCall lease r) := by
  obtain ⟨hn, hack⟩ := hacked
  refine ⟨hn.trans_le (System.fresh_step hacts.1), fun code hcode => ?_⟩
  have hkept : Settled s.world.db ((setup.candidate i).finishCall lease r) →
      Settled s'.world.db ((setup.candidate i).finishCall lease r) :=
    fun hsettled => hsettled.step h hrecorded hrun.sound hacts
  cases System.pending_step hacts.1 n with
  | served input c k ha hconn hnext =>
      rw [hnext] at hcode
      cases hcode
      rcases hack (.call c k) (by simp [System.pending, hconn, Conn.code]) with hafter | hsettled
      · by_cases hexecuted : Executed ((setup.candidate i).finishCall lease r) c
          (Control.effect c input s.world).1
        · have hworld : s'.world = (Control.effect c input s.world).2 := by
            have hstep := hacts.1
            simp only [ha, System.next, hconn, Option.some.injEq] at hstep
            rw [← hstep]
          rw [hworld]
          exact .inr (settled_of_executed hentry hrun hexecuted)
        · exact .inl (hafter _ hexecuted)
      · exact .inr (hkept hsettled)
  | kept _ hsame => exact (hack code (by rw [← hsame]; exact hcode)).imp_right hkept
  | lost _ hlost =>
      rw [hlost] at hcode
      cases hcode
  | posted _ _ _ _ _ hnumber => omega

/-- A report that has just been posted is under way. -/
theorem acked_of_posted {i : τ} {m : Move} {r : String × List (String × String)}
    (h : Ledger setup history s token tells) (hreports : (s.locals i).tells m = some r)
    (hnext : s.next setup (.move i m) = some s') :
    Acked setup s' s.fresh ((setup.candidate i).finishCall (s.locals i).lease r) := by
  have hentry := h.entry i _ (h.held i (.inl (Local.claimed_of_tells hreports)))
  obtain ⟨⟨loc, p⟩, hmove, -⟩ := Option.map_eq_some_iff.mp hnext
  obtain rfl : p = some ((setup.candidate i).report (s.locals i).lease r.1 r.2) :=
    Candidate.post_of_tells hmove hreports
  have hfresh := System.fresh_post hnext hmove
  refine ⟨by omega, fun code hcode => .inl ?_⟩
  rw [System.pending_post hnext hmove] at hcode
  cases hcode
  exact report_ack setup.env setup.ns hentry.pos hentry.lt

/-- A report that was posted in an execution is settled by the time it is acknowledged. -/
theorem acked_run {later : List (Action τ × Option Store.Event)} {i : τ} {n : ℕ} {lease : TaskLease}
    {r : String × List (String × String)}
    (hexec : Execution (System.Acts setup) System.initial history s)
    (hentry : Entry setup history s i lease.version)
    (hacked : Acked setup s n ((setup.candidate i).finishCall lease r))
    (hlater : Execution (System.Acts setup) s later s') :
    Acked setup s' n ((setup.candidate i).finishCall lease r) ∧
      Entry setup (history ++ later) s' i lease.version := by
  induction hlater with
  | refl => exact ⟨hacked, by rwa [List.append_nil]⟩
  | @snoc before middle finish l hpath hstep ih =>
      have hmiddle := hexec.trans hpath
      have hrun := System.store_run hmiddle
      obtain ⟨token, tells, h, hrecorded⟩ := recorded_run hmiddle
      rw [← List.append_assoc]
      exact ⟨ih.1.step h hrecorded hrun ih.2 hstep, ih.2.step hrun.sound hstep⟩

/-- What is settled in an execution stays settled. -/
theorem settled_run {later : List (Action τ × Option Store.Event)} {call : FinishCall}
    (hexec : Execution (System.Acts setup) System.initial history s)
    (hsettled : Settled s.world.db call) (hlater : Execution (System.Acts setup) s later s') :
    Settled s'.world.db call := by
  induction hlater with
  | refl => exact hsettled
  | @snoc before middle finish l hpath hstep ih =>
      have hmiddle := hexec.trans hpath
      obtain ⟨token, tells, h, hrecorded⟩ := recorded_run hmiddle
      exact ih.step h hrecorded (System.store_run hmiddle).sound hstep

/-- What an acknowledged report means. In every execution, when a call makes a report, of its
container run or of a preparation that failed, and the control server acknowledges the request, then
in every later state the row of the job is terminal and records that report, or a newer token of the
job than that of the call has been issued. -/
theorem acknowledged_report {before between after : List (Action τ)} {s₀ s₁ s₂ : System τ}
    (hbefore : Execution (fun s a s' => System.next setup s a = some s') System.initial before s₀)
    {i : τ} {m : Move} {r : String × List (String × String)}
    (hreports : (s₀.locals i).tells m = some r)
    (hbetween : Execution (fun s a s' => System.next setup s a = some s') s₀
      (.move i m :: between) s₁)
    (hreply : s₁.reply s₀.fresh = some .noContent)
    (hafter : Execution (fun s a s' => System.next setup s a = some s') s₁ after s₂) :
    ∃ row, s₂.world.db.lookup (setup.candidate i).jobID = some row ∧
      (row.status.Terminal ∧ row.result = (reportOutcome r).result ∨
        (s₀.locals i).lease.version < row.leaseToken) := by
  obtain ⟨posted, hpost, hwait⟩ := hbetween.of_cons
  obtain ⟨history, -, hexec⟩ := System.acts_of_execution hbefore
  obtain ⟨waiting, -, hwaiting⟩ := System.acts_of_execution hwait
  obtain ⟨later, -, hlater⟩ := System.acts_of_execution hafter
  obtain ⟨token, tells, h⟩ := ledger_run hexec
  have hentry := h.entry i _ (h.held i (.inl (Local.claimed_of_tells hreports)))
  have hacts : System.Acts setup s₀ (.move i m, s₀.statement (.move i m)) posted := ⟨hpost, rfl⟩
  have hposted := hexec.snoc hacts
  obtain ⟨⟨-, hacked⟩, hgranted⟩ := acked_run hposted
    (hentry.step (System.store_run hexec).sound hacts) (acked_of_posted h hreports hpost) hwaiting
  have hsettled := (hacked _ (System.pending_of_reply hreply)).resolve_left fun hnot => hnot rfl
  obtain ⟨row, hrow, hrecord⟩ := settled_run (hposted.trans hwaiting) hsettled hlater
  refine ⟨row, hrow, hrecord.imp_right fun hnewer => ?_⟩
  have hpos := hgranted.pos
  rwa [Candidate.finishCall, int64_uint64 (by omega) hgranted.lt] at hnewer

end Settled

namespace Sample

/-- The agent `a` runs the job and comes to its report. -/
def reporting : List (Action Bool) :=
  .createJob Store.Sample.job { now := 1 } :: claimAndRun true 0 2 ++
    [.move true (.containerEnded false [("exit_code", "0")]), .move true .cancelJob]

/-- The control server acknowledges the report. -/
def acknowledging : List (Action Bool) :=
  .deliver 1 :: List.replicate 7 (.serve 1 { now := 4 })

end Sample

/-- The agent `a` reports, and after its call has ended the report is on record, or the agent `b`
has been granted the job. -/
theorem acknowledged_report_recorded :
    ∃ s s' : System Bool,
      (s.locals true).tells .report = some ("succeeded", [("exit_code", "0")]) ∧
      (s'.locals true).stage = .done ∧ ∃ row, s'.world.db.lookup "job" = some row ∧
      (row.status.Terminal ∧
        row.result = (reportOutcome ("succeeded", [("exit_code", "0")])).result ∨
        (s.locals true).lease.version < row.leaseToken) := by
  have hplay : ∃ s₀ s₁ s₂,
      System.play Sample.setup (fun _ _ => true) Sample.reporting System.initial = some s₀ ∧
      (s₀.locals true).tells .report = some ("succeeded", [("exit_code", "0")]) ∧
      System.play Sample.setup (fun _ _ => true) (.move true .report :: Sample.acknowledging) s₀ =
        some s₁ ∧
      s₁.reply s₀.fresh = some .noContent ∧
      System.play Sample.setup (fun _ _ => true) [.move true .reportReply] s₁ = some s₂ ∧
      (s₂.locals true).stage = .done :=
    ⟨_, _, _, rfl, rfl, rfl, rfl, rfl, rfl⟩
  obtain ⟨s₀, s₁, s₂, hbefore, hreports, hbetween, hreply, hafter, hdone⟩ := hplay
  exact ⟨s₀, s₂, hreports, hdone, acknowledged_report (System.execution_of_play hbefore) hreports
    (System.execution_of_play hbetween) hreply (System.execution_of_play hafter)⟩

end MutualCloud.Agent
