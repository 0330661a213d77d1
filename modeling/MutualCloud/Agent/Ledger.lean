import MutualCloud.Agent.Moves
import MutualCloud.Agent.Report
import MutualCloud.Agent.TokenTrip
import MutualCloud.Store.Exclusivity
import MutualCloud.Store.Progress

/-!
# Which call holds which token

A claim is granted while the handler of its request runs; the call of `onCandidate` learns of it
from the reply, unless the reply is lost. `Ledger` enters the token of a grant under the call whose
request it was. One token of a job is never entered under two calls, and every report on its way to
the store presents the token that is entered under its call (`ledger_run`).
-/

namespace MutualCloud.Agent

open Go KeyedTable Interaction Labelled Store Control

/-! ## What the handlers send and answer -/

/-- The token of a call after one more step of the handler of its claim. -/
def grantedBy (c : Candidate) : (call : Call) → call.Response → Option Int → Option Int
  | .sql (.tryClaim id agentID _), .ok (some (t, _)), token =>
      if id = c.jobID ∧ agentID = c.agentID then some t else token
  | _, _, token => token

/-- Whatever its steps return, the handler answers with no lease but one under the token of the
call. -/
def LeaseOf (c : Candidate) : Code Reply → Option Int → Prop
  | .done r, token => ∀ lease, r = .leaseOut true lease →
      ∃ t, token = some t ∧ lease.version = int64 (uint64 t)
  | .call call k, token => ∀ r, LeaseOf c (k r) (grantedBy c call r token)

/-- The step neither creates a job nor finishes one. -/
def NoReport : Call → Prop
  | .sql (.createJob _) | .sql (.finish _ _ _ _) => False
  | _ => True

section Handlers

variable {env : Env} {c : Candidate}

/-- A step of the handler enters the token that its statement returned for the call, or none. -/
theorem granted_by_cases (c : Candidate) (call : Call) (input : Control.Input) (r : call.Response)
    (token : Option Int) :
    grantedBy c call r token = token ∨ ∃ ttl t expiry, grantedBy c call r token = some t ∧
      Control.Event.statement ⟨call, input, r⟩ =
        some ⟨.tryClaim c.jobID c.agentID ttl, input.toInput, .ok (some (t, expiry))⟩ := by
  unfold grantedBy
  split
  next id agentID ttl t expiry =>
      split
      next hsame =>
          obtain ⟨rfl, rfl⟩ := hsame
          exact .inr ⟨ttl, t, expiry, rfl, rfl⟩
      next => exact .inl rfl
  next => exact .inl rfl

/-- A claim that passes the checks is one of the call. -/
theorem claim_call {r : Request TryClaimIn} {call : ClaimCall} (hpost : c.tryClaim = .tryClaim r)
    (hcall : tryClaimRequest env r = .ok call) :
    call.id = c.jobID ∧ call.agentID = c.agentID := by
  refine ⟨(claim_accepted hpost hcall).2.1, ?_⟩
  have hbody : r.body = .ok ⟨c.agentID, c.ttlSec⟩ := by
    cases hpost
    rfl
  unfold tryClaimRequest at hcall
  split at hcall
  · cases hcall
  · split at hcall
    · split at hcall
      next => cases hcall
      next body hread =>
          rw [hbody] at hread
          cases hread
          split at hcall <;> cases hcall
          rfl
    · cases hcall

/-- The part of `tryClaimHandler` after a grant answers with its token. -/
theorem assign_job_lease (call : ClaimCall) (claimed : Lease) {t : Int}
    (htoken : claimed.fencingToken = uint64 t) :
    LeaseOf c (assignJob call (some claimed)) (some t) := by
  intro now st written put lease hlease
  cases hlease
  exact ⟨t, rfl, by rw [htoken]⟩

/-- The part of `tryClaimHandler` after a claim that was not granted answers with no lease. -/
theorem answer_error_lease (call : ClaimCall) (e : Err) (token : Option Int) :
    LeaseOf c (answerClaim call (.error e)) token := by
  cases e with
  | noManifest =>
      intro now st written lease hlease
      cases hlease
  | jobNotFound | leaseConflict | badToken | sql =>
      intro lease hlease
      cases hlease

/-- `tryClaimHandler` answers a call with a lease under the token that its claim was granted. -/
theorem try_claim_lease {r : Request TryClaimIn} (hpost : c.tryClaim = .tryClaim r) :
    LeaseOf c (tryClaimHandler env r) none := by
  unfold tryClaimHandler
  cases hreq : tryClaimRequest env r with
  | error reply =>
      obtain ⟨code, message, rfl⟩ := try_claim_request_error hreq
      intro lease hlease
      cases hlease
  | ok call =>
      obtain ⟨hid, hagent⟩ := claim_call hpost hreq
      intro response
      rcases response with e | (_ | ⟨t, expiry⟩)
      · exact answer_error_lease call (.sql e) none
      · intro job
        rcases job with e | (_ | job)
        · exact answer_error_lease call (.sql e) none
        · exact answer_error_lease call .jobNotFound none
        · intro columns
          exact answer_error_lease call _ none
      · have hgranted : grantedBy c (.sql (.tryClaim call.id call.agentID call.ttl))
            (.ok (some (t, expiry))) none = some t := if_pos ⟨hid, hagent⟩
        show LeaseOf c (assignJob call (some ⟨call.agentID, expiry, uint64 t⟩))
          (grantedBy c (.sql (.tryClaim call.id call.agentID call.ttl)) (.ok (some (t, expiry)))
            none)
        rw [hgranted]
        exact assign_job_lease call ⟨call.agentID, expiry, uint64 t⟩ rfl

/-- A step that is no statement finishes no job. -/
theorem no_report_of_not_sql {c : Call} (h : c.NotSql) : NoReport c := by
  cases c with
  | sql stmt => exact absurd rfl (h stmt)
  | getJSON | putJSON | delJSON | timeNow | enqueue => trivial

/-- `tryClaimHandler` finishes no job. -/
theorem try_claim_no_report (env : Env) (r : Request TryClaimIn) :
    (tryClaimHandler env r).Always (fun _ _ => True) NoReport := by
  unfold tryClaimHandler
  cases tryClaimRequest env r with
  | error reply => trivial
  | ok call =>
      have hmirror := mirror_steps_of (fun _ => no_report_of_not_sql) call.id
      refine Prog.always_bind ⟨trivial, fun response _ => ?_⟩ hmirror.answer_claim
      rcases response with e | (_ | ⟨t, expiry⟩)
      · trivial
      · refine ⟨trivial, fun job _ => ?_⟩
        rcases job with e | (_ | job)
        · trivial
        · trivial
        · exact ⟨trivial, fun _ _ => trivial⟩
      · trivial

/-- `heartbeatHandler` finishes no job. -/
theorem heartbeat_no_report (env : Env) (r : Request HbIn) :
    (heartbeatHandler env r).Always (fun _ _ => True) NoReport := by
  unfold heartbeatHandler
  cases heartbeatRequest env r with
  | error reply => trivial
  | ok call =>
      have hmirror := mirror_steps_of (fun _ => no_report_of_not_sql) call.id
      refine Prog.always_bind ⟨trivial, fun _ _ => trivial⟩ fun result => ?_
      cases result with
      | error e => trivial
      | ok _ => exact Prog.always_bind hmirror.mirror_heartbeat fun _ => trivial

/-- `requeueLoop` finishes no job. -/
theorem no_report_of_requeue {c : Call} (h : OfRequeue c) : NoReport c := by
  rcases h with hnot | rfl | ⟨id, rfl⟩
  · exact no_report_of_not_sql hnot
  · trivial
  · trivial

/-- `finishHandler` finishes what its request asks for. -/
theorem finish_handler_reports (env : Env) (ns : String) (r : Request FinishIn) :
    (finishHandler env ns r).Always (fun _ _ => True) fun c => NoReport c ∨
      ∃ call, finishRequest env r = .ok call ∧
        c = .sql (.finish call.id call.agentID call.token call.outcome) := by
  unfold finishHandler
  cases finishRequest env r with
  | error reply => trivial
  | ok call =>
      have hmirror := mirror_steps_of (P := fun c => NoReport c ∨
        ∃ call', Except.ok call = (.ok call' : Except Reply FinishCall) ∧
          c = .sql (.finish call'.id call'.agentID call'.token call'.outcome))
        (fun c hc => .inl (no_report_of_not_sql hc)) call.id
      refine Prog.always_bind ⟨.inr ⟨call, rfl, rfl⟩, fun response _ => ?_⟩ fun result => ?_
      · cases response <;> trivial
      · cases result with
        | error e => trivial
        | ok _ => exact Prog.always_bind (hmirror.mirror_finish ns call.outcome) fun _ => trivial

/-- The report of a call that passes the checks names the job, the agent and the token of the
call, and tells what the call reports. -/
theorem report_call {lease : TaskLease} {status : String} {metrics : List (String × String)}
    {call : FinishCall} (hpos : 1 ≤ lease.version) (hlt : lease.version < 2 ^ 63)
    (hcall : finishRequest env (reportRequest c lease status metrics) = .ok call) :
    call.id = c.jobID ∧ call.agentID = c.agentID ∧ call.token = uint64 lease.version ∧
      call.outcome = ⟨toLower status = "succeeded", "", none, some metrics⟩ := by
  have hpath : (reportRequest c lease status metrics).path = Route.finish.path c.jobID := rfl
  have hid := finish_task_id hcall
  rw [Handler.taskID, hpath] at hid
  have hsplit : split c.jobID '/' = [call.id] :=
    (@Route.segment_between_split .finish (by simp) _ rfl c.jobID call.id).mp hid
  have htoken : (reportRequest c lease status metrics).header "X-Lease-Token" =
      toString lease.version := by
    simp [reportRequest, show lease.version > 0 by omega]
  refine ⟨(split_eq_singleton_iff.mp hsplit).1, ?_⟩
  unfold finishRequest at hcall
  rw [htoken, token_of_to_string hpos hlt] at hcall
  split at hcall
  · cases hcall
  · split at hcall
    · cases hcall
    · split at hcall
      · cases hcall
        exact ⟨rfl, rfl, rfl⟩
      · cases hcall

end Handlers

/-! ## The ledger -/

section Ledger

variable {τ : Type} [DecidableEq τ]

/-- What `Finish` is told of a report. -/
def reportOutcome (r : String × List (String × String)) : Outcome :=
  ⟨toLower r.1 = "succeeded", "", none, some r.2⟩

/-- The call `i` is past its container run and reports `tells i` under the token of its lease, and a
success that it reports is that of its container run. -/
structure ReportOf (setup : Setup τ) (history : List (Action τ × Option Store.Event))
    (s : System τ) (tells : τ → Option Outcome) (call : FinishCall) (i : τ) : Prop where
  job : (setup.candidate i).jobID = call.id
  agent : (setup.candidate i).agentID = call.agentID
  leased : (s.locals i).lease.version ≠ 0
  token : call.token = uint64 (s.locals i).lease.version
  stage : (s.locals i).stage.Reports
  said : tells i = some call.outcome
  ran : call.outcome.succeeded = true → ∃ metrics e,
    (.move i (.containerEnded false metrics), e) ∈ history ∧ call.outcome.metrics = some metrics

/-- What the statement creates is queued, and what it finishes is what a call reports. -/
structure Attributed (setup : Setup τ) (history : List (Action τ × Option Store.Event))
    (s : System τ) (tells : τ → Option Outcome) (stmt : Stmt) : Prop where
  creates : ∀ job, stmt = .createJob job → job.status = .queued
  reports : ∀ id agentID u outcome, stmt = .finish id agentID u outcome →
    ∃ i, ReportOf setup history s tells ⟨id, agentID, u, outcome⟩ i

/-- The token under a call was granted to it, and is none from the future. -/
structure Entry (setup : Setup τ) (history : List (Action τ × Option Store.Event)) (s : System τ)
    (i : τ) (t : Int) : Prop where
  pos : 1 ≤ t
  lt : t < 2 ^ 63
  granted : ∃ e ∈ storeHistory history,
    e.Granted (setup.candidate i).jobID (setup.candidate i).agentID (uint64 t)
  row : ∃ row, s.world.db.lookup (setup.candidate i).jobID = some row ∧ t ≤ row.leaseToken

/-- The tokens of the calls and what they report, and what this means for the requests that are
under way. -/
structure Ledger (setup : Setup τ) (history : List (Action τ × Option Store.Event)) (s : System τ)
    (token : τ → Option Int) (tells : τ → Option Outcome) : Prop where
  /-- Numbers from `fresh` on are not in use. -/
  unused : ∀ n, s.fresh ≤ n → s.pending setup n = none
  number : ∀ i n, (s.locals i).stage = .claiming n → n < s.fresh
  apart : ∀ i j n, (s.locals i).stage = .claiming n → (s.locals j).stage = .claiming n → i = j
  answer : ∀ i n code, (s.locals i).stage = .claiming n → s.pending setup n = some code →
    LeaseOf (setup.candidate i) code (token i)
  start : ∀ i, (s.locals i).stage = .start → token i = none
  /-- Before the reply to its claim a call has no lease. -/
  blank : ∀ i, ¬ (s.locals i).stage.Claimed → (s.locals i).stage ≠ .done →
    (s.locals i).lease.version = 0
  held : ∀ i, (s.locals i).stage.Claimed ∨ (s.locals i).lease.version ≠ 0 →
    token i = some (s.locals i).lease.version
  entry : ∀ i t, token i = some t → Entry setup history s i t
  distinct : ∀ i j t, (setup.candidate i).jobID = (setup.candidate j).jobID → token i = some t →
    token j = some t → i = j
  silent : ∀ i, ¬ (s.locals i).stage.Reports → tells i = none
  saying : ∀ i r outcome, (s.locals i).stage.result = some r → tells i = some outcome →
    outcome = reportOutcome r
  reports : ∀ n code, s.pending setup n = some code → code.Always (fun _ _ => True)
    fun c => ∀ stmt, c = .sql stmt → Attributed setup history s tells stmt
  sent : ∀ e ∈ storeHistory history, Attributed setup history s tells e.call
  requeuer : s.requeuer.Always (fun _ _ => True) OfRequeue
  /-- A success to be reported is one of the container run. -/
  ran : ∀ i status metrics, (s.locals i).stage.result = some (status, metrics) →
    toLower status = "succeeded" →
    ∃ e, (.move i (.containerEnded false metrics), e) ∈ history

variable {setup : Setup τ} {s s' : System τ} {history : List (Action τ × Option Store.Event)}
  {l : Action τ × Option Store.Event} {token token' : τ → Option Int}
  {tells tells' : τ → Option Outcome}

omit [DecidableEq τ] in
/-- The first statement of a history stays in it. -/
theorem store_history_snoc {e : Store.Event} (h : e ∈ storeHistory history) :
    e ∈ storeHistory (history ++ [l]) := by
  unfold storeHistory at *
  rw [List.filterMap_append]
  exact List.mem_append_left _ h

omit [DecidableEq τ] in
theorem ledger_initial (setup : Setup τ) :
    Ledger setup [] System.initial (fun _ => none) (fun _ => none) where
  unused _ _ := rfl
  number _ _ h := by cases h
  apart _ _ _ h := by cases h
  answer _ _ _ h := by cases h
  start _ _ := rfl
  blank _ _ _ := rfl
  held _ h := by
    rcases h with h | h
    · cases h
    · exact absurd rfl h
  entry _ _ h := by cases h
  distinct _ _ _ _ h := by cases h
  silent _ _ := rfl
  saying _ _ _ h := by cases h
  reports _ _ h := by cases h
  sent _ h := by cases h
  requeuer := trivial
  ran _ _ _ h := by cases h

omit [DecidableEq τ] in
/-- A report stays one as long as its call keeps its lease and does not go back. -/
theorem ReportOf.mono {call : FinishCall} {i : τ} (h : ReportOf setup history s tells call i)
    (hlease : (s'.locals i).lease = (s.locals i).lease) (hstage : (s'.locals i).stage.Reports)
    (htells : tells' i = tells i) : ReportOf setup (history ++ [l]) s' tells' call i where
  job := h.job
  agent := h.agent
  leased := by rw [hlease]; exact h.leased
  token := by rw [hlease]; exact h.token
  stage := hstage
  said := by rw [htells]; exact h.said
  ran hsucceeded := by
    obtain ⟨metrics, e, hran, hmetrics⟩ := h.ran hsucceeded
    exact ⟨metrics, e, List.mem_append_left _ hran, hmetrics⟩

/-- A token under a call stays granted. -/
theorem Entry.step {i : τ} {t : Int} (h : Entry setup history s i t)
    (hsound : Store.Sound s.world.db) (hacts : System.Acts setup s l s') :
    Entry setup (history ++ [l]) s' i t where
  pos := h.pos
  lt := h.lt
  granted := by
    obtain ⟨e, he, hgranted⟩ := h.granted
    exact ⟨e, store_history_snoc he, hgranted⟩
  row := by
    obtain ⟨row, hrow, hle⟩ := h.row
    have hstore := hacts.store
    split at hstore
    next e he =>
        obtain ⟨row', hrow', hmono⟩ := token_mono (.single hstore) hsound hrow
        exact ⟨row', hrow', hle.trans hmono⟩
    next => exact ⟨row, by rw [hstore]; exact hrow, hle⟩

/-- The tokens of the calls after a step: what the handler of a claim is granted is entered under
the call that waits for its reply. -/
def System.enter (setup : Setup τ) (s : System τ) (a : Action τ) (token : τ → Option Int) (i : τ) :
    Option Int :=
  match a, (s.locals i).stage with
  | .serve n input, .claiming k =>
      if k = n then
        match s.conns n with
        | some (.serving (.call c _)) =>
            grantedBy (setup.candidate i) c (Control.effect c input s.world).1 (token i)
        | _ => token i
      else token i
  | _, _ => token i

/-- The tokens change only by a grant to a call that waits for its reply. -/
def Enters (setup : Setup τ) (s : System τ) (l : Action τ × Option Store.Event)
    (token token' : τ → Option Int) : Prop :=
  ∀ i, token' i = token i ∨ ∃ n ttl input t expiry,
    (s.locals i).stage = .claiming n ∧ (∃ input, l.1 = .serve n input) ∧ token' i = some t ∧
    l.2 = some ⟨.tryClaim (setup.candidate i).jobID (setup.candidate i).agentID ttl, input,
      .ok (some (t, expiry))⟩

omit [DecidableEq τ] in
/-- Nothing is entered under a call that does not wait for the reply to its claim. -/
theorem enter_of_ne {i : τ} (h : ∀ n, (s.locals i).stage ≠ .claiming n) (a : Action τ) :
    s.enter setup a token i = token i := by
  unfold System.enter
  split
  next n input k hstage => exact absurd hstage (h k)
  next => rfl

omit [DecidableEq τ] in
/-- Nothing is entered by a step that is none of the request's handler. -/
theorem enter_of_not_serve {i : τ} {n : ℕ} {a : Action τ}
    (hstage : (s.locals i).stage = .claiming n) (h : ∀ input, a ≠ .serve n input) :
    s.enter setup a token i = token i := by
  unfold System.enter
  split
  next n' input k hk =>
      rw [hstage] at hk
      cases hk
      exact if_neg fun heq => h input (by rw [heq])
  next => rfl

omit [DecidableEq τ] in
/-- What is entered under a call by a step of the handler of its claim. -/
theorem enter_serve {i : τ} {n : ℕ} {c : Call} {k : c.Response → Code Reply}
    (hstage : (s.locals i).stage = .claiming n) (hconn : s.conns n = some (.serving (.call c k)))
    (input : Control.Input) :
    s.enter setup (.serve n input) token i =
      grantedBy (setup.candidate i) c (Control.effect c input s.world).1 (token i) := by
  simp only [System.enter, hstage, hconn, if_true]

theorem enters_step (hacts : System.Acts setup s l s') (token : τ → Option Int) :
    Enters setup s l token (s.enter setup l.1 token) := by
  intro i
  by_cases hclaiming : ∃ n, (s.locals i).stage = .claiming n
  · obtain ⟨n, hstage⟩ := hclaiming
    cases System.pending_step hacts.1 n with
    | served input c k ha hconn =>
        rw [ha, enter_serve hstage hconn]
        refine (granted_by_cases (setup.candidate i) c input _ (token i)).imp_right ?_
        intro hgranted
        obtain ⟨ttl, t, expiry, ht, he⟩ := hgranted
        refine ⟨n, ttl, input.toInput, t, expiry, hstage, ⟨input, rfl⟩, ht, ?_⟩
        rw [hacts.2, ha]
        simp only [System.statement, hconn]
        exact he
    | kept hserve | lost hserve => exact .inl (enter_of_not_serve hstage hserve)
    | posted i' m p ha =>
        exact .inl (enter_of_not_serve hstage (by rw [ha]; exact fun _ h => by cases h))
  · exact .inl (enter_of_ne (fun n hn => hclaiming ⟨n, hn⟩) l.1)

/-- The entries after a step. -/
theorem Enters.entry (h : Enters setup s l token token')
    (hledger : Ledger setup history s token tells) (hsound : Store.Sound s.world.db)
    (hacts : System.Acts setup s l s') :
    ∀ i t, token' i = some t → Entry setup (history ++ [l]) s' i t := by
  intro i t ht
  rcases h i with hsame | ⟨n, ttl, input, t', expiry, -, -, hnew, he⟩
  · exact (hledger.entry i t (hsame ▸ ht)).step hsound hacts
  · obtain rfl : t' = t := Option.some.inj (hnew.symm.trans ht)
    have hstore := hacts.store
    rw [he] at hstore
    obtain ⟨row, row', -, hrow', hnonneg, hnext, hlt, htoken⟩ := row_of_claim hsound hstore
    have hpos : 1 ≤ t' := by omega
    refine ⟨hpos, hlt, ⟨_, ?_, ttl, input, t', expiry, rfl, rfl⟩, row', hrow', htoken.ge⟩
    unfold storeHistory
    rw [List.filterMap_append]
    exact List.mem_append_right _ (by simp [he])

/-- No two calls have one token of a job after a step. -/
theorem Enters.distinct (h : Enters setup s l token token')
    (hledger : Ledger setup history s token tells) (hsound : Store.Sound s.world.db)
    (hacts : System.Acts setup s l s') :
    ∀ i j t, (setup.candidate i).jobID = (setup.candidate j).jobID → token' i = some t →
      token' j = some t → i = j := by
  -- a grant is above every token of the job that is entered already
  have hfresh : ∀ i j t, (setup.candidate i).jobID = (setup.candidate j).jobID →
      (∃ ttl input expiry, l.2 = some ⟨.tryClaim (setup.candidate i).jobID
        (setup.candidate i).agentID ttl, input, .ok (some (t, expiry))⟩) →
      token j ≠ some t := by
    intro i j t hjob hgrant htoken
    obtain ⟨ttl, input, expiry, he⟩ := hgrant
    have hstore := hacts.store
    rw [he] at hstore
    obtain ⟨row, -, hrow, -, -, hnext, -⟩ := row_of_claim hsound hstore
    obtain ⟨row', hrow', hle⟩ := (hledger.entry j t htoken).row
    rw [← hjob, hrow] at hrow'
    cases hrow'
    omega
  intro i j t hjob hi hj
  rcases h i with hsame | ⟨n, ttl, input, t₁, expiry, hstage, hserve, hnew, he⟩
  · rcases h j with hsame' | ⟨n', ttl', input', t₂, expiry', -, -, hnew', he'⟩
    · exact hledger.distinct i j t hjob (hsame ▸ hi) (hsame' ▸ hj)
    · obtain rfl : t₂ = t := Option.some.inj (hnew'.symm.trans hj)
      exact absurd (hsame ▸ hi) (hfresh j i t₂ hjob.symm ⟨ttl', input', expiry', he'⟩)
  · obtain rfl : t₁ = t := Option.some.inj (hnew.symm.trans hi)
    rcases h j with hsame' | ⟨n', ttl', input', t₂, expiry', hstage', hserve', -, -⟩
    · exact absurd (hsame' ▸ hj) (hfresh i j t₁ hjob ⟨ttl, input, expiry, he⟩)
    · obtain ⟨input₁, hserve⟩ := hserve
      obtain ⟨input₂, hserve'⟩ := hserve'
      rw [hserve] at hserve'
      cases hserve'
      exact hledger.apart i j n hstage hstage'

/-- A call that reports goes on reporting, under its lease. -/
theorem stays_reporting {a : Action τ} (h : s.next setup a = some s') {i : τ}
    (hreports : (s.locals i).stage.Reports) :
    (s'.locals i).stage.Reports ∧ (s'.locals i).lease = (s.locals i).lease := by
  rcases System.locals_step h i with ⟨-, hsame⟩ | ⟨m, p, -, hmove⟩
  · rw [hsame]
    exact ⟨hreports, rfl⟩
  · cases Candidate.moved hmove with
    | beats hstage hlease =>
        rw [hstage]
        exact ⟨hreports, hlease⟩
    | claims hstart =>
        rw [hstart] at hreports
        exact hreports.elim
    | refused n hclaiming | granted n hclaiming =>
        exact absurd hclaiming (hreports.ne_claiming n)
    | onward honward => exact ⟨honward.reports hreports, honward.lease⟩

/-- A call waits for the reply to its claim since before the step, or has just posted it. -/
theorem claiming_step {a : Action τ} (h : s.next setup a = some s') {i : τ} {n : ℕ}
    (hstage : (s'.locals i).stage = .claiming n) :
    (s.locals i).stage = .claiming n ∨
    n = s.fresh ∧ (s.locals i).stage = .start ∧ ∃ m l, a = .move i m ∧
      (setup.candidate i).move s.reply s.fresh (s.locals i) m =
        some (l, some (setup.candidate i).tryClaim) := by
  rcases System.locals_step h i with ⟨-, hsame⟩ | ⟨m, p, ha, hmove⟩
  · exact .inl (by rw [← hsame]; exact hstage)
  · cases Candidate.moved hmove with
    | beats hkept => exact .inl (by rw [← hkept]; exact hstage)
    | claims hstart hclaiming _ hpost =>
        rw [hclaiming] at hstage
        cases hstage
        exact .inr ⟨rfl, hstart, m, _, ha, by rw [← hpost]; exact hmove⟩
    | refused k _ hnext | granted k _ _ hnext =>
        rw [hnext] at hstage
        cases hstage
    | onward honward =>
        rcases honward.next with hclaimed | hdone
        · exact absurd hstage (hclaimed.ne_claiming n)
        · rw [hdone] at hstage
          cases hstage

/-- What the calls report after a step. -/
def System.speak (s : System τ) (a : Action τ) (tells : τ → Option Outcome) (i : τ) :
    Option Outcome :=
  match a with
  | .move j m => if j = i then (((s.locals i).tells m).map reportOutcome).or (tells i) else tells i
  | _ => tells i

/-- A call goes on telling what it told, unless it moves and posts a report. -/
theorem speak_of_quiet {i : τ} {a : Action τ}
    (h : ∀ m, a = .move i m → (s.locals i).tells m = none) : s.speak a tells i = tells i := by
  cases a with
  | move j m =>
      by_cases hj : j = i
      · subst hj
        simp [System.speak, h m rfl]
      · simp [System.speak, hj]
  | createJob | attachManifest | deliver | serve | lose | requeue => rfl

/-- A call that posts a report tells what it reports. -/
theorem speak_move {i : τ} {m : Move} {r : String × List (String × String)}
    (h : (s.locals i).tells m = some r) :
    s.speak (.move i m) tells i = some (reportOutcome r) := by
  simp [System.speak, h]

/-- What a step makes of what a call tells: it is left as it is, or the call posts its first report,
or the same report again. -/
theorem speak_step {a : Action τ} (h : s.next setup a = some s') (tells : τ → Option Outcome)
    (i : τ) :
    s.speak a tells i = tells i ∨ ∃ r, s.speak a tells i = some (reportOutcome r) ∧
      (s'.locals i).stage.Reports ∧
      (¬ (s.locals i).stage.Reports ∧ (s'.locals i).stage.result = none ∨
        (s.locals i).stage.result = some r ∧
          (s'.locals i).stage.result = (s.locals i).stage.result) := by
  rcases System.locals_step h i with ⟨hother, -⟩ | ⟨m, p, rfl, hmove⟩
  · exact .inl (speak_of_quiet fun m hm => absurd hm (hother m))
  · cases htells : (s.locals i).tells m with
    | none =>
        refine .inl (speak_of_quiet ?_)
        intro m' hm'
        cases hm'
        exact htells
    | some r =>
        refine .inr ⟨r, speak_move htells, ?_⟩
        rcases (Candidate.onward_of_tells hmove htells).post with
          ⟨hquiet, -⟩ | ⟨status, metrics, hr, -, hreports, hpost⟩
        · rw [hquiet] at htells
          cases htells
        · rw [hr] at htells
          cases htells
          refine ⟨hreports, hpost.imp_left ?_⟩
          intro hfirst
          exact ⟨hfirst.1, hfirst.2.1⟩

omit [DecidableEq τ] in
/-- A step that finishes nothing finishes nothing that is not reported. -/
theorem attributed_of_no_report {c : Call} (h : NoReport c) (stmt : Stmt) (hc : c = .sql stmt) :
    Attributed setup history s tells stmt := by
  subst hc
  constructor
  · intro job heq
    rw [heq] at h
    exact h.elim
  · intro id agentID u outcome heq
    rw [heq] at h
    exact h.elim

section Step

variable (h : Ledger setup history s token tells) (hacts : System.Acts setup s l s')

include h hacts

/-- A call that has posted a report goes on telling the same. -/
theorem Ledger.speak_kept {i : τ} {outcome : Outcome} (htold : tells i = some outcome) :
    s.speak l.1 tells i = some outcome := by
  rcases speak_step hacts.1 tells i with hsame | ⟨r, hspeak, -, ⟨hreports, -⟩ | ⟨hresult, -⟩⟩
  · rw [hsame]
    exact htold
  · rw [h.silent i hreports] at htold
    cases htold
  · rw [hspeak, h.saying i r outcome hresult htold]

/-- A report stays one of its call. -/
theorem ReportOf.step {call : FinishCall} {i : τ} (hi : ReportOf setup history s tells call i) :
    ReportOf setup (history ++ [l]) s' (s.speak l.1 tells) call i := by
  obtain ⟨hstage, hlease⟩ := stays_reporting hacts.1 hi.stage
  exact hi.mono hlease hstage (by rw [h.speak_kept hacts hi.said, hi.said])

/-- What a statement finishes is still what a call reports after another step. -/
theorem Attributed.step {stmt : Stmt} (hstmt : Attributed setup history s tells stmt) :
    Attributed setup (history ++ [l]) s' (s.speak l.1 tells) stmt := by
  refine ⟨hstmt.creates, ?_⟩
  intro id agentID u outcome hfinish
  obtain ⟨i, hi⟩ := hstmt.reports id agentID u outcome hfinish
  exact ⟨i, hi.step h hacts⟩

/-- Numbers from `fresh` on are not in use after a step. -/
theorem Ledger.unused_step (n : ℕ) (hn : s'.fresh ≤ n) : s'.pending setup n = none := by
  have hfresh := System.fresh_step hacts.1
  have hnone := h.unused n (hfresh.trans hn)
  cases System.pending_step hacts.1 n with
  | served input c k _ hconn => simp [System.pending, hconn] at hnone
  | kept _ hsame => rw [hsame, hnone]
  | lost _ hlost => exact hlost
  | posted i m p ha hmove hnumber =>
      have hnext := hacts.1
      rw [ha] at hnext
      have := System.fresh_post hnext hmove
      omega

theorem Ledger.number_step (i : τ) (n : ℕ) (hstage : (s'.locals i).stage = .claiming n) :
    n < s'.fresh := by
  have hfresh := System.fresh_step hacts.1
  rcases claiming_step hacts.1 hstage with hold | ⟨hn, -, m, local', ha, hmove⟩
  · exact (h.number i n hold).trans_le hfresh
  · have hnext := hacts.1
    rw [ha] at hnext
    have := System.fresh_post hnext hmove
    omega

theorem Ledger.apart_step (i j : τ) (n : ℕ) (hi : (s'.locals i).stage = .claiming n)
    (hj : (s'.locals j).stage = .claiming n) : i = j := by
  rcases claiming_step hacts.1 hi with hi | ⟨hn, -, m, -, ha, -⟩
  · rcases claiming_step hacts.1 hj with hj | ⟨hn, -⟩
    · exact h.apart i j n hi hj
    · have := h.number i n hi
      omega
  · rcases claiming_step hacts.1 hj with hj | ⟨-, -, m', -, ha', -⟩
    · have := h.number j n hj
      omega
    · rw [ha] at ha'
      cases ha'
      rfl

/-- The handler of a claim still answers with the token of its call. -/
theorem Ledger.answer_step (i : τ) (n : ℕ) (code : Code Reply)
    (hstage : (s'.locals i).stage = .claiming n) (hcode : s'.pending setup n = some code) :
    LeaseOf (setup.candidate i) code (s.enter setup l.1 token i) := by
  rcases claiming_step hacts.1 hstage with hold | ⟨rfl, hstart, m, local', ha, hmove⟩
  · cases System.pending_step hacts.1 n with
    | served input c k ha hconn hnext =>
        rw [hnext] at hcode
        cases hcode
        rw [ha, enter_serve hold hconn]
        exact h.answer i n (.call c k) hold (by simp [System.pending, hconn, Conn.code]) _
    | kept hserve hsame =>
        rw [enter_of_not_serve hold hserve]
        exact h.answer i n code hold (by rw [← hsame]; exact hcode)
    | lost _ hlost =>
        rw [hlost] at hcode
        cases hcode
    | posted _ _ _ _ _ hnumber => exact absurd (h.number i n hold) (by omega)
  · -- the claim has just been posted, and nothing is granted before it is
    have hnext := hacts.1
    rw [ha] at hnext
    rw [System.pending_post hnext hmove] at hcode
    cases hcode
    rw [enter_of_ne (by simp [hstart]), h.start i hstart]
    exact try_claim_lease rfl

theorem Ledger.start_step (i : τ) (hstage : (s'.locals i).stage = .start) :
    s.enter setup l.1 token i = none := by
  have hstart : (s.locals i).stage = .start := by
    rcases System.locals_step hacts.1 i with ⟨-, hsame⟩ | ⟨m, p, -, hmove⟩
    · rw [← hsame]
      exact hstage
    · cases Candidate.moved hmove with
      | beats hkept =>
          rw [← hkept]
          exact hstage
      | claims hstart => exact hstart
      | refused k _ hnext | granted k _ _ hnext =>
          rw [hnext] at hstage
          cases hstage
      | onward honward =>
          have hnext := honward.next
          rw [hstage] at hnext
          rcases hnext with hclaimed | hdone
          · exact hclaimed.elim
          · cases hdone
  rw [enter_of_ne (by simp [hstart]), h.start i hstart]

theorem Ledger.blank_step (i : τ) (hclaimed : ¬ (s'.locals i).stage.Claimed)
    (hdone : (s'.locals i).stage ≠ .done) : (s'.locals i).lease.version = 0 := by
  rcases System.locals_step hacts.1 i with ⟨-, hsame⟩ | ⟨m, p, -, hmove⟩
  · rw [hsame] at hclaimed hdone ⊢
    exact h.blank i hclaimed hdone
  · cases Candidate.moved hmove with
    | beats hkept hlease =>
        rw [hkept] at hclaimed hdone
        rw [hlease]
        exact h.blank i hclaimed hdone
    | claims hstart _ hlease =>
        rw [hlease]
        exact h.blank i (by simp [hstart, Stage.Claimed]) (by simp [hstart])
    | refused k _ hended => exact absurd hended hdone
    | granted k _ _ hwaiting => exact absurd (by rw [hwaiting]; trivial) hclaimed
    | onward honward => exact absurd honward.next (not_or.mpr ⟨hclaimed, hdone⟩)

omit [DecidableEq τ] hacts in
/-- A call with a lease does not wait for the reply to its claim. -/
theorem Ledger.ne_claiming {i : τ}
    (hheld : (s.locals i).stage.Claimed ∨ (s.locals i).lease.version ≠ 0) (n : ℕ) :
    (s.locals i).stage ≠ .claiming n := by
  intro hstage
  rcases hheld with hclaimed | hversion
  · exact hclaimed.ne_claiming n hstage
  · exact hversion (h.blank i (by simp [hstage, Stage.Claimed]) (by simp [hstage]))

/-- A call holds the lease of the token that is entered under it. -/
theorem Ledger.held_step (i : τ)
    (hheld : (s'.locals i).stage.Claimed ∨ (s'.locals i).lease.version ≠ 0) :
    s.enter setup l.1 token i = some (s'.locals i).lease.version := by
  rcases System.locals_step hacts.1 i with ⟨-, hsame⟩ | ⟨m, p, ha, hmove⟩
  · rw [hsame] at hheld ⊢
    rw [enter_of_ne (h.ne_claiming hheld)]
    exact h.held i hheld
  · have henter : s.enter setup l.1 token i = token i := by
      rw [ha]
      rfl
    rw [henter]
    cases Candidate.moved hmove with
    | beats hkept hlease =>
        rw [hlease]
        exact h.held i (by rw [← hkept, ← hlease]; exact hheld)
    | claims hstart hclaiming hlease =>
        rw [hclaiming, hlease] at hheld
        have hblank := h.blank i (by simp [hstart, Stage.Claimed]) (by simp [hstart])
        exact absurd hblank (hheld.resolve_left id)
    | refused k hclaiming hdone hlease =>
        rw [hdone, hlease] at hheld
        have hblank := h.blank i (by simp [hclaiming, Stage.Claimed]) (by simp [hclaiming])
        exact absurd hblank (hheld.resolve_left id)
    | granted n hclaiming hreply =>
        -- the reply carries the token of the grant
        obtain ⟨t, htoken, hversion⟩ :=
          h.answer i n _ hclaiming (System.pending_of_reply hreply) _ rfl
        have hentry := h.entry i t htoken
        have hpos := hentry.pos
        rw [htoken, hversion, int64_uint64 (by omega) hentry.lt]
    | onward honward =>
        rw [honward.lease]
        exact h.held i (.inl honward.claimed)

/-- A success to be reported is one of the container run, after a step as before it. -/
theorem Ledger.ran_step (i : τ) (status : String) (metrics : List (String × String))
    (hresult : (s'.locals i).stage.result = some (status, metrics))
    (hsucceeded : toLower status = "succeeded") :
    ∃ e, (.move i (.containerEnded false metrics), e) ∈ history ++ [l] := by
  have hearlier : (s.locals i).stage.result = some (status, metrics) →
      ∃ e, (.move i (.containerEnded false metrics), e) ∈ history ++ [l] := by
    intro hold
    obtain ⟨e, he⟩ := h.ran i status metrics hold hsucceeded
    exact ⟨e, List.mem_append_left _ he⟩
  rcases System.locals_step hacts.1 i with ⟨-, hsame⟩ | ⟨m, p, ha, hmove⟩
  · exact hearlier (by rw [← hsame]; exact hresult)
  · cases Candidate.moved hmove with
    | beats hkept => exact hearlier (by rw [← hkept]; exact hresult)
    | claims _ hnext | refused _ _ hnext | granted _ _ _ hnext =>
        rw [hnext] at hresult
        cases hresult
    | onward honward =>
        rcases honward.result _ hresult with hold | ⟨-, failed, metrics', rfl, hr⟩
        · exact hearlier hold
        · cases hr
          cases failed with
          | true => exact absurd hsucceeded (by decide)
          | false =>
              refine ⟨l.2, List.mem_append_right _ ?_⟩
              rw [← ha]
              exact List.mem_singleton_self l

omit hacts in
/-- The handler of a request that was just posted finishes nothing but what its call reports. -/
theorem Ledger.post_attributed {i : τ} {m : Move} {p : Post}
    (hmove : (setup.candidate i).move s.reply s.fresh (s.locals i) m =
      some (s'.locals i, some p)) :
    (p.handle setup.env setup.ns).Always (fun _ _ => True) fun c => ∀ stmt, c = .sql stmt →
      Attributed setup (history ++ [l]) s' (s.speak (.move i m) tells) stmt := by
  cases Candidate.moved hmove with
  | beats _ _ _ hpost =>
      rcases hpost with hnone | hbeat
      · cases hnone
      · cases hbeat
        exact (heartbeat_no_report _ _).mono fun _ => attributed_of_no_report
  | claims _ _ _ hclaim =>
      cases hclaim
      exact (try_claim_no_report _ _).mono fun _ => attributed_of_no_report
  | refused _ _ _ _ hnone | granted _ _ _ _ hnone => cases hnone
  | onward honward =>
      rcases honward.post with ⟨-, hnone⟩ | ⟨status, metrics, htells, hreport, hreports, hresult⟩
      · cases hnone
      · cases hreport
        have hentry := h.entry i _ (h.held i (.inl honward.claimed))
        have hpos := hentry.pos
        rw [Candidate.report]
        refine (finish_handler_reports setup.env setup.ns _).mono ?_
        intro c hc stmt hstmt
        rcases hc with hquiet | ⟨call, hcall, hc⟩
        · exact attributed_of_no_report hquiet stmt hstmt
        cases hc.symm.trans hstmt
        obtain ⟨hid, hagent, hu, houtcome⟩ := report_call hpos hentry.lt hcall
        refine ⟨fun job heq => (by cases heq), ?_⟩
        intro id agentID u outcome heq
        cases heq
        refine ⟨i, hid.symm, hagent.symm, ?_, ?_, hreports, ?_, ?_⟩
        · rw [honward.lease]
          omega
        · rw [honward.lease]
          exact hu
        · rw [speak_move htells, houtcome]
          rfl
        · intro hsucceeded
          rw [houtcome] at hsucceeded ⊢
          have hstatus : toLower status = "succeeded" := by simpa using hsucceeded
          rcases hresult with ⟨-, -, rfl⟩ | ⟨hresult, -⟩
          · exact absurd hstatus (by decide)
          · obtain ⟨e, he⟩ := h.ran i status metrics hresult hstatus
            exact ⟨metrics, e, List.mem_append_left _ he, rfl⟩

/-- The requests under way finish nothing but what a call reports. -/
theorem Ledger.reports_step (n : ℕ) (code : Code Reply) (hcode : s'.pending setup n = some code) :
    code.Always (fun _ _ => True) fun c => ∀ stmt, c = .sql stmt →
      Attributed setup (history ++ [l]) s' (s.speak l.1 tells) stmt := by
  cases System.pending_step hacts.1 n with
  | served input c k _ hconn hnext =>
      rw [hnext] at hcode
      cases hcode
      have halways := h.reports n (.call c k) (by simp [System.pending, hconn, Conn.code])
      exact (halways.2 _ trivial).mono fun _ hc stmt hstmt => (hc stmt hstmt).step h hacts
  | kept _ hsame =>
      refine (h.reports n code (by rw [← hsame]; exact hcode)).mono ?_
      intro _ hc stmt hstmt
      exact (hc stmt hstmt).step h hacts
  | lost _ hlost =>
      rw [hlost] at hcode
      cases hcode
  | posted i m p ha hmove _ hpost =>
      rw [hpost] at hcode
      cases hcode
      rw [ha]
      exact h.post_attributed hmove

/-- A finish that a step sends is what a call reports. -/
theorem Ledger.acts_attributed {e : Store.Event} (he : l.2 = some e) :
    Attributed setup history s tells e.call := by
  have hnext := hacts.1
  rw [hacts.2] at he
  cases ha : l.1 with
  | createJob job input =>
      rw [ha] at he hnext
      cases he
      refine ⟨?_, fun _ _ _ _ heq => by cases heq⟩
      intro job' heq
      cases heq
      simp only [System.next] at hnext
      split at hnext
      next hqueued => exact hqueued
      next => cases hnext
  | attachManifest id m input =>
      rw [ha] at he
      cases he
      exact attributed_of_no_report (c := .sql (.attachManifest id m)) trivial _ rfl
  | deliver | lose | move =>
      rw [ha] at he
      cases he
  | serve n input =>
      simp only [ha, System.statement] at he
      split at he
      next c k hconn =>
          have halways := h.reports n (.call c k) (by simp [System.pending, hconn, Conn.code])
          exact halways.1 e.call (System.call_of_statement he)
      next => cases he
  | requeue input =>
      simp only [ha, System.statement] at he
      split at he
      next c k hcode =>
          have halways := h.requeuer
          rw [hcode] at halways
          exact attributed_of_no_report (no_report_of_requeue halways.1) e.call
            (System.call_of_statement he)
      next => cases he

/-- The finishes that were sent are what the calls report. -/
theorem Ledger.sent_step (e : Store.Event) (he : e ∈ storeHistory (history ++ [l])) :
    Attributed setup (history ++ [l]) s' (s.speak l.1 tells) e.call := by
  unfold storeHistory at he
  rw [List.filterMap_append, List.mem_append] at he
  rcases he with hold | hnew
  · exact (h.sent e hold).step h hacts
  · have hlabel : l.2 = some e := by simpa using hnew
    exact (h.acts_attributed hacts hlabel).step h hacts

theorem Ledger.silent_step (i : τ) (hreports : ¬ (s'.locals i).stage.Reports) :
    s.speak l.1 tells i = none := by
  rcases speak_step hacts.1 tells i with hsame | ⟨r, -, hposted, -⟩
  · rw [hsame]
    exact h.silent i fun hbefore => hreports (stays_reporting hacts.1 hbefore).1
  · exact absurd hposted hreports

omit [DecidableEq τ] hacts in
/-- A call whose container run has ended before a move or with it tells the result, if anything. -/
theorem Ledger.saying_move {i : τ} {m : Move} {p : Option Post}
    {r : String × List (String × String)} {outcome : Outcome}
    (hmove : (setup.candidate i).move s.reply s.fresh (s.locals i) m = some (s'.locals i, p))
    (hresult : (s'.locals i).stage.result = some r) (htold : tells i = some outcome) :
    outcome = reportOutcome r := by
  cases Candidate.moved hmove with
  | beats hkept => exact h.saying i r outcome (by rw [← hkept]; exact hresult) htold
  | claims _ hnext | refused _ _ hnext | granted _ _ _ hnext =>
      rw [hnext] at hresult
      cases hresult
  | onward honward =>
      rcases honward.result r hresult with hold | ⟨hreports, -⟩
      · exact h.saying i r outcome hold htold
      · rw [h.silent i hreports] at htold
        cases htold

theorem Ledger.saying_step (i : τ) (r : String × List (String × String)) (outcome : Outcome)
    (hresult : (s'.locals i).stage.result = some r) (htells : s.speak l.1 tells i = some outcome) :
    outcome = reportOutcome r := by
  rcases speak_step hacts.1 tells i with hsame | ⟨r', hspeak, -, ⟨-, hnone⟩ | ⟨hold, hkept⟩⟩
  · rw [hsame] at htells
    rcases System.locals_step hacts.1 i with ⟨-, hlocal⟩ | ⟨m, p, -, hmove⟩
    · exact h.saying i r outcome (by rw [← hlocal]; exact hresult) htells
    · exact h.saying_move hmove hresult htells
  · rw [hnone] at hresult
    cases hresult
  · rw [hkept, hold] at hresult
    cases hresult
    exact (Option.some.inj (hspeak.symm.trans htells)).symm

/-- `requeueLoop` is within a tick. -/
theorem Ledger.requeuer_step : s'.requeuer.Always (fun _ _ => True) OfRequeue := by
  rcases System.requeuer_step hacts.1 with hsame | htick | ⟨c, k, r, hcall, hnext⟩
  · rw [hsame]
    exact h.requeuer
  · rw [htick]
    exact requeue_tick_always
  · have halways := h.requeuer
    rw [hcall] at halways
    rw [hnext]
    exact halways.2 r trivial

/-- One step keeps the ledger. -/
theorem Ledger.step (hsound : Store.Sound s.world.db) :
    Ledger setup (history ++ [l]) s' (s.enter setup l.1 token) (s.speak l.1 tells) where
  unused := h.unused_step hacts
  number := h.number_step hacts
  apart := h.apart_step hacts
  answer := h.answer_step hacts
  start := h.start_step hacts
  blank := h.blank_step hacts
  held := h.held_step hacts
  entry := (enters_step hacts token).entry h hsound hacts
  distinct := (enters_step hacts token).distinct h hsound hacts
  silent := h.silent_step hacts
  saying := h.saying_step hacts
  reports := h.reports_step hacts
  sent := h.sent_step hacts
  requeuer := h.requeuer_step hacts
  ran := h.ran_step hacts

end Step

/-- Every execution has a ledger. -/
theorem ledger_run (hexec : Execution (System.Acts setup) System.initial history s) :
    ∃ token tells, Ledger setup history s token tells := by
  refine hexec.invariant_history
    (I := fun history s => ∃ token tells, Ledger setup history s token tells)
    ⟨_, _, ledger_initial setup⟩ ?_
  intro before s l s' hbefore hledger hacts
  obtain ⟨token, tells, h⟩ := hledger
  exact ⟨_, _, h.step hacts (System.store_run hbefore).sound⟩

end Ledger

end MutualCloud.Agent
