import MutualCloud.Agent.Ledger
import MutualCloud.Store.Terminal

/-!
# One outcome for a job

The store lets anybody overwrite the result of a finished job who presents a token that is high
enough (`Store.result_immutable_iff`). The agents of the repository never do: in every execution of
agents, network, control server and requeue loop, what a terminal row records is the report of one
call of `onCandidate` (`Recorded`), and two reports under one token are reports of one call, which
repeats itself (`ReportOf.unique`).
-/

namespace MutualCloud.Agent

open Go KeyedTable Interaction Labelled Store Control

variable {τ : Type} [DecidableEq τ] {setup : Setup τ} {s s' : System τ}
  {history later : List (Action τ × Option Store.Event)} {l : Action τ × Option Store.Event}
  {token : τ → Option Int} {tells : τ → Option Outcome}

/-! ## Reports and tokens -/

section Reports

variable (h : Ledger setup history s token tells)

include h

omit [DecidableEq τ] in
/-- A call that reports has the token of its lease. -/
theorem ReportOf.entered {call : FinishCall} {i : τ}
    (hi : ReportOf setup history s tells call i) :
    token i = some (s.locals i).lease.version ∧
      Entry setup history s i (s.locals i).lease.version := by
  have htoken := h.held i (.inr hi.leased)
  exact ⟨htoken, h.entry i _ htoken⟩

omit [DecidableEq τ] in
/-- The token that a call reports under, read as `Finish` reads it. -/
theorem ReportOf.int64_token {call : FinishCall} {i : τ}
    (hi : ReportOf setup history s tells call i) :
    int64 call.token = (s.locals i).lease.version := by
  obtain ⟨-, hentry⟩ := hi.entered h
  have hpos := hentry.pos
  rw [hi.token, int64_uint64 (by omega) hentry.lt]

omit [DecidableEq τ] in
/-- Two reports of a job under one token are the same report of the same call. -/
theorem ReportOf.unique {call call' : FinishCall} {i j : τ}
    (hi : ReportOf setup history s tells call i) (hj : ReportOf setup history s tells call' j)
    (hid : call.id = call'.id) (htoken : call.token = call'.token) : i = j ∧ call = call' := by
  have hversion : (s.locals i).lease.version = (s.locals j).lease.version := by
    rw [← hi.int64_token h, ← hj.int64_token h, htoken]
  have hsame : i = j := by
    refine h.distinct i j _ ?_ (hi.entered h).1 ?_
    · rw [hi.job, hj.job, hid]
    · rw [hversion]
      exact (hj.entered h).1
  subst hsame
  have houtcome : call.outcome = call'.outcome :=
    Option.some.inj (hi.said.symm.trans hj.said)
  have hagent : call.agentID = call'.agentID := hi.agent.symm.trans hj.agent
  cases call
  cases call'
  simp_all

omit [DecidableEq τ] in
/-- A report whose token is not below that of the row is under the token of the row. -/
theorem ReportOf.version_eq {call : FinishCall} {i : τ}
    (hi : ReportOf setup history s tells call i) {row : Row}
    (hrow : s.world.db.lookup call.id = some row) (hle : row.leaseToken ≤ int64 call.token) :
    (s.locals i).lease.version = row.leaseToken := by
  obtain ⟨row', hrow', hbelow⟩ := (hi.entered h).2.row
  rw [hi.job, hrow] at hrow'
  cases hrow'
  rw [hi.int64_token h] at hle
  omega

omit [DecidableEq τ] in
theorem ReportOf.token_eq {call : FinishCall} {i : τ}
    (hi : ReportOf setup history s tells call i) {row : Row}
    (hrow : s.world.db.lookup call.id = some row) (hle : row.leaseToken ≤ int64 call.token) :
    call.token = uint64 row.leaseToken := by
  rw [hi.token, hi.version_eq h hrow hle]

end Reports

omit [DecidableEq τ] in
/-- A row that is leased under the token of a call is leased to its agent. -/
theorem agent_of_token {i : τ} {t : Int} (hentry : Entry setup history s i t)
    (hrun : Run (storeHistory history) s.world.db) {row : Row} {b : String}
    (hrow : s.world.db.lookup (setup.candidate i).jobID = some row)
    (hagent : row.leaseAgent = some b) (htoken : row.leaseToken = t) :
    b = (setup.candidate i).agentID := by
  obtain ⟨c, hc, hgranted⟩ := hentry.granted
  obtain ⟨c', hc', hgranted'⟩ := hrun.granted_of_leased hrow hagent
  rw [htoken] at hgranted'
  exact FencedLease.claim_unique (hrun.ownership (setup.candidate i).jobID)
    (hgranted'.mem_ownership hc') (hgranted.mem_ownership hc)

/-! ## What a terminal row records -/

/-- Every terminal row records what a call reported under the token of the row. -/
def Recorded (setup : Setup τ) (history : List (Action τ × Option Store.Event)) (s : System τ)
    (tells : τ → Option Outcome) : Prop :=
  ∀ id row, s.world.db.lookup id = some row → row.status.Terminal →
    ∃ i call, ReportOf setup history s tells call i ∧ call.id = id ∧
      call.token = uint64 row.leaseToken ∧ row.result = call.outcome.result

/-- A row becomes terminal by its creation or by a report. -/
theorem finish_of_terminal {id : String} {e : Store.Event} {old : Option Row} {row' : Row}
    (h : RowStep id e old (some row')) (hterminal : row'.status.Terminal)
    (hbefore : ∀ row, old = some row → ¬ row.status.Terminal) :
    (∃ job, e.call = .createJob job ∧ job.status.Terminal) ∨
    ∃ row agentID u outcome, old = some row ∧ e.call = .finish id agentID u outcome ∧
      row.Finishable agentID u ∧ row' = row.finish outcome := by
  generalize hnew : some row' = new at h
  cases h with
  | idle => exact absurd hterminal (hbefore row' hnew.symm)
  | create job input hid =>
      cases hnew
      exact .inl ⟨job, rfl, hterminal⟩
  | attach m input row =>
      cases hnew
      exact absurd hterminal (hbefore row rfl)
  | claim | renew | requeue =>
      cases hnew
      rcases hterminal with hstatus | hstatus <;> cases hstatus
  | finish agentID u outcome input row hguard =>
      cases hnew
      exact .inr ⟨row, agentID, u, outcome, rfl, rfl, hguard, rfl⟩

section Step

variable (h : Ledger setup history s token tells) (hrecorded : Recorded setup history s tells)
  (hsound : Store.Sound s.world.db) (hacts : System.Acts setup s l s')

include h hrecorded hsound hacts

/-- A step leaves the result of a finished job as it is. -/
theorem result_kept_step {id : String} {row : Row} (hrow : s.world.db.lookup id = some row)
    (hterminal : row.status.Terminal) :
    ∃ row', s'.world.db.lookup id = some row' ∧ row'.status.Terminal ∧
      row'.leaseToken = row.leaseToken ∧ row'.result = row.result := by
  have hstore := hacts.store
  split at hstore
  next e he =>
      have hended : row.Ended row.leaseToken := ⟨hsound id row hrow, hterminal, rfl⟩
      obtain ⟨row', hrow', hended', hresult⟩ := result_step hstore hrow hended
      refine ⟨row', hrow', hended'.terminal, hended'.token_eq, ?_⟩
      rcases hresult with hsame | ⟨agentID, u, outcome, hcall, -, hle, hresult⟩
      · exact hsame
      · -- a report that gets through is the one that was recorded
        obtain ⟨i, hi⟩ := (h.acts_attributed hacts he).reports id agentID u outcome hcall
        obtain ⟨j, call, hj, hid, htoken, hrecord⟩ := hrecorded id row hrow hterminal
        have hu := hi.token_eq h hrow hle
        obtain ⟨-, rfl⟩ := hi.unique h hj hid.symm (hu.trans htoken.symm)
        rw [hresult, hrecord]
  next => exact ⟨row, by rw [hstore]; exact hrow, hterminal, rfl, rfl⟩

/-- A step keeps the records. -/
theorem Recorded.step : Recorded setup (history ++ [l]) s' (s.speak l.1 tells) := by
  intro id row' hrow' hterminal'
  by_cases hold : ∃ row, s.world.db.lookup id = some row ∧ row.status.Terminal
  · obtain ⟨row, hrow, hterminal⟩ := hold
    obtain ⟨i, call, hi, hid, htoken, hresult⟩ := hrecorded id row hrow hterminal
    obtain ⟨row'', hrow'', -, hsame, hkept⟩ :=
      result_kept_step h hrecorded hsound hacts hrow hterminal
    rw [hrow'] at hrow''
    cases hrow''
    exact ⟨i, call, hi.step h hacts, hid, by rw [hsame, htoken], by rw [hkept, hresult]⟩
  · have hbefore : ∀ row, s.world.db.lookup id = some row → ¬ row.status.Terminal :=
      fun row hrow hterminal => hold ⟨row, hrow, hterminal⟩
    have hstore := hacts.store
    split at hstore
    next e he =>
        have hattributed := h.acts_attributed hacts he
        have hstep := row_step hstore id
        rw [hrow'] at hstep
        rcases finish_of_terminal hstep hterminal' hbefore with ⟨job, hcall, hcreated⟩ |
          ⟨row, agentID, u, outcome, hrow, hcall, hguard, rfl⟩
        · rw [hattributed.creates job hcall] at hcreated
          rcases hcreated with hstatus | hstatus <;> cases hstatus
        · obtain ⟨i, hi⟩ := hattributed.reports id agentID u outcome hcall
          have htoken := hi.token_eq h hrow hguard.2
          exact ⟨i, _, hi.step h hacts, rfl, htoken, rfl⟩
    next =>
        rw [hstore] at hrow'
        exact absurd hterminal' (hbefore row' hrow')

end Step

/-- In every execution the terminal rows record what calls reported. What else a step keeps of what
the calls told holds of these reports as well. -/
theorem recorded_run_with
    {I : List (Action τ × Option Store.Event) → System τ → (τ → Option Outcome) → Prop}
    (hstart : I [] System.initial fun _ => none)
    (hkeeps : ∀ {history s l s' token tells},
      Execution (System.Acts setup) System.initial history s →
      Ledger setup history s token tells → I history s tells → System.Acts setup s l s' →
      I (history ++ [l]) s' (s.speak l.1 tells))
    (hexec : Execution (System.Acts setup) System.initial history s) :
    ∃ token tells, Ledger setup history s token tells ∧ Recorded setup history s tells ∧
      I history s tells := by
  refine hexec.invariant_history
    (I := fun history s => ∃ token tells, Ledger setup history s token tells ∧
      Recorded setup history s tells ∧ I history s tells)
    ⟨_, _, ledger_initial setup, fun _ _ hrow => (by cases hrow), hstart⟩ ?_
  intro before s l s' hbefore hledger hacts
  obtain ⟨token, tells, h, hrecorded, hI⟩ := hledger
  have hsound := (System.store_run hbefore).sound
  exact ⟨_, _, h.step hacts hsound, hrecorded.step h hsound hacts, hkeeps hbefore h hI hacts⟩

theorem recorded_run (hexec : Execution (System.Acts setup) System.initial history s) :
    ∃ token tells, Ledger setup history s token tells ∧ Recorded setup history s tells := by
  obtain ⟨token, tells, h, hrecorded, -⟩ :=
    recorded_run_with (I := fun _ _ _ => True) trivial (fun _ _ _ _ => trivial) hexec
  exact ⟨token, tells, h, hrecorded⟩

/-! ## The outcome of a job -/

namespace Sample

/-- The agent `a` claims the job, runs it and reports a success; the reply is lost. -/
def reported : List (Action Bool) :=
  .createJob Store.Sample.job { now := 1 } :: claimAndRun true 0 2 ++
    [.move true (.containerEnded false [("exit_code", "0")]), .move true .cancelJob,
      .move true .report, .deliver 1, .serve 1 { now := 3 }]

/-- The agent `a` reports again. -/
def repeated : List (Action Bool) :=
  [.move true (.reportError true), .move true .report, .deliver 2, .serve 2 { now := 4 }]

/-- The report gets through. -/
theorem reported_succeeded :
    ∃ s, Execution (fun s a s' => System.next Sample.setup s a = some s') System.initial
        reported s ∧
      (∃ s', Execution (fun s a s' => System.next Sample.setup s a = some s') s repeated s') ∧
      ∃ row, s.world.db.lookup "job" = some row ∧ row.status = .succeeded := by
  have hplay : ∃ s, System.play Sample.setup (fun _ _ => true) reported System.initial = some s ∧
      (∃ s', System.play Sample.setup (fun _ _ => true) repeated s = some s') ∧
      ∃ row, s.world.db.lookup "job" = some row ∧ row.status = .succeeded :=
    ⟨_, rfl, ⟨_, rfl⟩, _, rfl, rfl⟩
  obtain ⟨s, hs, ⟨s', hs'⟩, hrow⟩ := hplay
  exact ⟨s, System.execution_of_play hs, ⟨s', System.execution_of_play hs'⟩, hrow⟩

end Sample

/-- The outcome of a job is recorded for good. From every state of every execution in which the job
has ended, whatever the agents, the network, the server and the requeue loop do next, the status,
the result, the artifacts, the metrics and the token of its row stay as they are. -/
theorem outcome_for_good {before after : List (Action τ)}
    (hbefore : Execution (fun s a s' => System.next setup s a = some s') System.initial before s)
    (hafter : Execution (fun s a s' => System.next setup s a = some s') s after s')
    {id : String} {row : Row} (hrow : s.world.db.lookup id = some row)
    (hterminal : row.status.Terminal) :
    ∃ row', s'.world.db.lookup id = some row' ∧ row'.status.Terminal ∧
      row'.leaseToken = row.leaseToken ∧ row'.result = row.result := by
  obtain ⟨history, -, hexec⟩ := System.acts_of_execution hbefore
  obtain ⟨later, -, hlater⟩ := System.acts_of_execution hafter
  clear hbefore hafter
  induction hlater with
  | refl => exact ⟨row, hrow, hterminal, rfl, rfl⟩
  | @snoc before middle finish l hpath hstep ih =>
      obtain ⟨row', hrow', hterminal', htoken, hresult⟩ := ih
      have hmiddle := hexec.trans hpath
      obtain ⟨token, tells, h, hrecorded⟩ := recorded_run hmiddle
      obtain ⟨row'', hrow'', hterminal'', htoken', hresult'⟩ :=
        result_kept_step h hrecorded (System.store_run hmiddle).sound hstep hrow' hterminal'
      exact ⟨row'', hrow'', hterminal'', htoken'.trans htoken, hresult'.trans hresult⟩

/-- The second report of the agent `a` leaves the success as it was recorded. -/
theorem outcome_for_good_repeated :
    ∃ s s' : System Bool, ∃ row row' : Row,
      Execution (fun s a s' => System.next Sample.setup s a = some s') s Sample.repeated s' ∧
      s.world.db.lookup "job" = some row ∧ row.status = .succeeded ∧
      s'.world.db.lookup "job" = some row' ∧ row'.result = row.result := by
  obtain ⟨s, hbefore, ⟨s', hafter⟩, row, hrow, hstatus⟩ := Sample.reported_succeeded
  obtain ⟨row', hrow', -, -, hresult⟩ := outcome_for_good hbefore hafter hrow (.inl hstatus)
  exact ⟨s, s', row, row', hafter, hrow, hstatus, hrow', hresult⟩

/-- A job that is recorded as succeeded was run. In every state of every execution, when the status
of a job is `succeeded`, a container run of a call for that job has ended without a failure, and the
metrics of the row are those of that run. -/
theorem success_was_run {actions : List (Action τ)}
    (hexec : Execution (fun s a s' => System.next setup s a = some s') System.initial actions s)
    {id : String} {row : Row} (hrow : s.world.db.lookup id = some row)
    (hstatus : row.status = .succeeded) :
    ∃ i metrics, (setup.candidate i).jobID = id ∧
      .move i (.containerEnded false metrics) ∈ actions ∧ row.metrics = some (some metrics) := by
  obtain ⟨history, rfl, hacts⟩ := System.acts_of_execution hexec
  obtain ⟨token, tells, h, hrecorded⟩ := recorded_run hacts
  obtain ⟨i, call, hi, hid, -, hresult⟩ := hrecorded id row hrow (.inl hstatus)
  have hsucceeded : call.outcome.succeeded = true := by
    have hsame : call.outcome.status = .succeeded := by
      rw [← hstatus]
      exact (congrArg Result.status hresult).symm
    unfold Outcome.status at hsame
    split at hsame
    next htrue => exact htrue
    next => cases hsame
  obtain ⟨metrics, e, hran, hmetrics⟩ := hi.ran hsucceeded
  refine ⟨i, metrics, hi.job.trans hid, List.mem_map_of_mem hran, ?_⟩
  have hrow_metrics : row.metrics = some call.outcome.metrics := congrArg Result.metrics hresult
  rw [hrow_metrics, hmetrics]

/-- The success of the sample job is that of the container run of the agent `a`. -/
theorem success_was_run_reported :
    ∃ s : System Bool, ∃ row, s.world.db.lookup "job" = some row ∧ row.status = .succeeded ∧
      ∃ i metrics, .move i (.containerEnded false metrics) ∈ Sample.reported ∧
        row.metrics = some (some metrics) := by
  obtain ⟨s, hexec, -, row, hrow, hstatus⟩ := Sample.reported_succeeded
  obtain ⟨i, metrics, -, hran, hmetrics⟩ := success_was_run hexec hrow hstatus
  exact ⟨s, row, hrow, hstatus, i, metrics, hran, hmetrics⟩

/-! ## The reports that take effect -/

omit [DecidableEq τ] in
/-- Where a statement stands in a history. -/
theorem store_history_split {before after : List Store.Event} {e : Store.Event}
    (h : storeHistory history = before ++ e :: after) :
    ∃ earlier l rest, history = earlier ++ l :: rest ∧ storeHistory earlier = before ∧
      l.2 = some e ∧ storeHistory rest = after := by
  unfold storeHistory at h
  obtain ⟨first, second, rfl, hfirst, hsecond⟩ := List.filterMap_eq_append_iff.mp h
  obtain ⟨quiet, l, rest, rfl, hquiet, hl, hrest⟩ := List.filterMap_eq_cons_iff.mp hsecond
  refine ⟨first ++ quiet, l, rest, by simp, ?_, hl, hrest⟩
  unfold storeHistory
  rw [List.filterMap_append, hfirst, List.filterMap_eq_nil_iff.mpr hquiet, List.append_nil]

/-- Every `Finish` that reaches the store presents a token that was issued before to its agent. -/
theorem presents_issued (hexec : Execution (System.Acts setup) System.initial history s)
    (id : String) : PresentsIssued id (storeHistory history) := by
  intro before e after agentID u outcome hsplit hcall
  obtain ⟨earlier, l, rest, rfl, rfl, hl, -⟩ := store_history_split hsplit
  obtain ⟨middle, next, hearlier, hacts, -⟩ := hexec.split_at
  obtain ⟨token, tells, h⟩ := ledger_run hearlier
  obtain ⟨i, hi⟩ := (h.acts_attributed hacts hl).reports id agentID u outcome hcall
  obtain ⟨c, hc, hgranted⟩ := (hi.entered h).2.granted
  refine ⟨c, hc, ?_⟩
  rw [hi.job, hi.agent, ← hi.token] at hgranted
  exact hgranted

/-- A `Finish` that took effect did so under the token that the row has ever after. -/
theorem finished_token (hexec : Execution (System.Acts setup) System.initial history s)
    {e : Store.Event} (he : e ∈ storeHistory history) {id agentID : String} {u : UInt64}
    (hfinishes : e.Finishes id agentID u) :
    ∃ row, s.world.db.lookup id = some row ∧ u = uint64 row.leaseToken := by
  obtain ⟨before, after, hsplit⟩ := List.append_of_mem he
  obtain ⟨earlier, l, rest, rfl, -, hl, -⟩ := store_history_split hsplit
  obtain ⟨middle, next, hearlier, hacts, hrest⟩ := hexec.split_at
  obtain ⟨token, tells, h⟩ := ledger_run hearlier
  obtain ⟨outcome, input, n, rfl, hn⟩ := hfinishes
  obtain ⟨i, hi⟩ := (h.acts_attributed hacts hl).reports id agentID u outcome rfl
  have hstore := hacts.store
  rw [hl] at hstore
  have hstep := row_step hstore id
  generalize hold : middle.world.db.lookup id = old at hstep
  generalize hnew : next.world.db.lookup id = new at hstep
  have hsound := (System.store_run hearlier).sound
  cases hstep with
  | idle _ _ hidle => exact absurd ⟨rfl, n, rfl, by simpa [Stmt.wrote] using hn⟩ hidle
  | finish _ _ _ _ row hguard =>
      have hended : (row.finish outcome).Ended row.leaseToken :=
        ⟨(System.store_run (hearlier.snoc hacts)).sound id _ hnew, outcome.status_terminal, rfl⟩
      obtain ⟨row', hrow', hended'⟩ :=
        ended_of_ended (System.store_execution hrest) hnew hended
      refine ⟨row', hrow', ?_⟩
      rw [hended'.token_eq]
      exact hi.token_eq h hold hguard.2

/-- One report for a job. In every execution, whatever requests and replies are delayed, lost and
repeated, every `Finish` that reaches the store presents a token that was issued to its agent for
the job before, and all those that take effect on a job are one and the same: they name the same
agent, the same token and the same outcome. -/
theorem one_report (hexec : Execution (System.Acts setup) System.initial history s) (id : String) :
    PresentsIssued id (storeHistory history) ∧
    ∀ e₁ ∈ storeHistory history, ∀ e₂ ∈ storeHistory history, ∀ a₁ u₁ a₂ u₂,
      e₁.Finishes id a₁ u₁ → e₂.Finishes id a₂ u₂ → e₁.call = e₂.call := by
  refine ⟨presents_issued hexec id, ?_⟩
  intro e₁ he₁ e₂ he₂ a₁ u₁ a₂ u₂ hfirst hsecond
  obtain ⟨token, tells, h⟩ := ledger_run hexec
  obtain ⟨row, hrow, htoken₁⟩ := finished_token hexec he₁ hfirst
  obtain ⟨row', hrow', htoken₂⟩ := finished_token hexec he₂ hsecond
  rw [hrow] at hrow'
  cases hrow'
  obtain ⟨outcome₁, hcall₁⟩ := hfirst.call_eq
  obtain ⟨outcome₂, hcall₂⟩ := hsecond.call_eq
  obtain ⟨i, hi⟩ := (h.sent e₁ he₁).reports id a₁ u₁ outcome₁ hcall₁
  obtain ⟨j, hj⟩ := (h.sent e₂ he₂).reports id a₂ u₂ outcome₂ hcall₂
  have hsame := (hi.unique h hj rfl (htoken₁.trans htoken₂.symm)).2
  cases hsame
  rw [hcall₁, hcall₂]

/-- The two reports of the agent `a` are one and the same. -/
theorem one_report_repeated :
    ∃ history, ∃ s : System Bool, history.map Prod.fst = Sample.reported ++ Sample.repeated ∧
      Execution (System.Acts Sample.setup) System.initial history s ∧
      ∀ e₁ ∈ storeHistory history, ∀ e₂ ∈ storeHistory history, ∀ a₁ u₁ a₂ u₂,
        e₁.Finishes "job" a₁ u₁ → e₂.Finishes "job" a₂ u₂ → e₁.call = e₂.call := by
  obtain ⟨s, hbefore, ⟨s', hafter⟩, -⟩ := Sample.reported_succeeded
  obtain ⟨history, hactions, hexec⟩ := System.acts_of_execution (hbefore.trans hafter)
  exact ⟨history, s', hactions, hexec, (one_report hexec "job").2⟩

end MutualCloud.Agent
