import MutualCloud.Control.Handlers

/-!
# One candidate job of an agent

`onCandidate` of `cmd/agent/main.go` for one job: the goroutine that claims, prepares, runs and
reports the job, and the heartbeat goroutine that it starts. The two share the job context, whose
cancellation is the flag `cancelled`. A goroutine that has posted a request waits for its reply or
for an error of the client; nothing is assumed of the one or the other. How a manifest check, a
fetch or a container run ends is a parameter of the move that ends it.
-/

namespace MutualCloud.Agent

open Go Interaction Store Control

/-- The flags of an agent, as far as `onCandidate` uses them, and the job it was called for. -/
structure Candidate where
  agentID : String
  jobID : String
  ttlSec : Int
  token : String

/-- A request of an agent to the control server. -/
inductive Post where
  | tryClaim (r : Request TryClaimIn)
  | heartbeat (r : Request HbIn)
  | finish (r : Request FinishIn)

/-- The handler that the control server runs for a request. -/
def Post.handle (env : Env) (ns : String) : Post → Code Reply
  | tryClaim r => tryClaimHandler env r
  | heartbeat r => heartbeatHandler env r
  | finish r => finishHandler env ns r

namespace Candidate

/-- The header that carries the token of the agent. -/
def authorization (c : Candidate) (name : String) : String :=
  if name = "Authorization" ∧ c.token ≠ "" then "Bearer " ++ c.token else ""

/-- `HTTPClaimClient.TryClaim`. -/
def tryClaim (c : Candidate) : Post :=
  .tryClaim {
    method := "POST"
    path := "/api/tasks/" ++ c.jobID ++ "/try-claim"
    header := c.authorization
    body := .ok ⟨c.agentID, c.ttlSec⟩ }

/-- `HTTPClaimClient.Heartbeat`. -/
def heartbeat (c : Candidate) (lease : TaskLease) : Post :=
  .heartbeat {
    method := "POST"
    path := "/api/tasks/" ++ c.jobID ++ "/heartbeat"
    header := c.authorization
    body := .ok ⟨c.agentID, lease.nonce, c.ttlSec, lease.version⟩ }

end Candidate

/-- The request of `FinishClient.Report`, without the text of the error, which the server does not
read. -/
def reportRequest (c : Candidate) (lease : TaskLease) (status : String)
    (metrics : List (String × String)) : Request FinishIn where
  method := "POST"
  path := "/jobs/" ++ c.jobID ++ "/finish"
  header name :=
    if name = "X-Agent-ID" then c.agentID
    else if name = "X-Lease-Token" ∧ lease.version > 0 then toString lease.version
    else c.authorization name
  body := .ok ⟨status, some metrics, none, ""⟩

/-- `FinishClient.Report`. -/
def Candidate.report (c : Candidate) (lease : TaskLease) (status : String)
    (metrics : List (String × String)) : Post :=
  .finish (reportRequest c lease status metrics)

/-! ## The two goroutines -/

/-- What has to be done before the container runs. -/
inductive Preparation where
  | manifestCheck
  | getMeta
  | fetchInput
  deriving DecidableEq

/-- The metrics of the report that a preparation failed, with the JSON texts of their values. -/
def Preparation.metrics : Preparation → List (String × String)
  | manifestCheck =>
      [("error_stage", "\"manifest_check\""), ("reason", "\"manifest_not_found\"")]
  | getMeta => [("error_stage", "\"get_meta\"")]
  | fetchInput => [("error_stage", "\"fetch_input\"")]

/-- Where `onCandidate` is. -/
inductive Stage where
  | start
  /-- Waits for the reply to the claim with this request number. -/
  | claiming (request : ℕ)
  | waitingManifest
  | preparing (p : Preparation)
  /-- Inside `RunInContainer`. -/
  | running
  /-- The container run has ended, and the job context is not yet cancelled. -/
  | ended (status : String) (metrics : List (String × String))
  /-- Waits for the reply to the report of a failed preparation. -/
  | abandoning (request : ℕ)
  /-- About to report for the `attempt`-th time. -/
  | reporting (status : String) (metrics : List (String × String)) (attempt : ℕ)
  /-- Waits for the reply to the `attempt`-th report. -/
  | reported (status : String) (metrics : List (String × String)) (attempt request : ℕ)
  | done

/-- The stage after a preparation that succeeded. -/
def Preparation.next : Preparation → Stage
  | manifestCheck => .preparing .getMeta
  | getMeta => .preparing .fetchInput
  | fetchInput => .running

/-- Where the heartbeat goroutine is. -/
inductive Loop where
  | off
  /-- In `select`, after `fail` failures in a row. -/
  | waiting (fail : ℕ)
  /-- Waits for the reply to a heartbeat. -/
  | beating (fail request : ℕ)
  /-- Returned because the job context was cancelled. -/
  | stopped
  /-- Returned because `maxFail` heartbeats in a row failed. -/
  | gaveUp

/-- `maxFail`. -/
def maxFail : ℕ := 3

/-- `maxFinishRetries`. -/
def maxFinishRetries : ℕ := 20

/-- What a failed heartbeat does to the loop. -/
def Loop.failed (fail : ℕ) : Loop :=
  if fail + 1 ≥ maxFail then .gaveUp else .waiting (fail + 1)

/-- The state of one call of `onCandidate`. -/
structure Local where
  stage : Stage
  loop : Loop
  /-- The lease that the claim returned. -/
  lease : TaskLease
  /-- Whether the job context is cancelled. -/
  cancelled : Bool

/-- Before `onCandidate` does anything. -/
def Local.initial : Local := ⟨.start, .off, default, false⟩

/-- The moves of the two goroutines. -/
inductive Move where
  | tryClaim
  | claimReply
  | claimError
  | manifestWaited
  | prepared (ok : Bool)
  | containerEnded (failed : Bool) (metrics : List (String × String))
  | cancelJob
  | report
  | reportReply
  | reportError (retryable : Bool)
  | beat
  | beatReply
  | beatError
  | contextDone

/-- After an attempt to report that failed: again, or not. -/
def retryReport (status : String) (metrics : List (String × String)) (attempt : ℕ)
    (retryable : Bool) : Stage :=
  if retryable ∧ attempt < maxFinishRetries then .reporting status metrics (attempt + 1) else .done

/-- The stage after a reply to a report: only errors of the server are worth another attempt. -/
def afterReport (status : String) (metrics : List (String × String)) (attempt : ℕ) :
    Reply → Stage
  | .error code _ => retryReport status metrics attempt (code ≥ 500)
  | .noContent | .leaseOut _ _ | .ok | .panicked => .done

/-- One move: the next state and the request it posts, if it posts one, under the number `fresh`.
`reply` gives the replies that have arrived. -/
def Candidate.move (c : Candidate) (reply : ℕ → Option Reply) (fresh : ℕ) (s : Local) :
    Move → Option (Local × Option Post)
  | .tryClaim =>
      match s.stage with
      | .start => some ({ s with stage := .claiming fresh }, some c.tryClaim)
      | _ => none
  | .claimReply =>
      match s.stage with
      | .claiming n =>
          match reply n with
          | some (.leaseOut true lease) =>
              some ({ s with stage := .waitingManifest, lease := lease }, none)
          | some _ => some ({ s with stage := .done }, none)
          | none => none
      | _ => none
  | .claimError =>
      match s.stage with
      | .claiming _ => some ({ s with stage := .done }, none)
      | _ => none
  | .manifestWaited =>
      -- `jobCtx` is made here and the heartbeat goroutine started
      match s.stage with
      | .waitingManifest =>
          some ({ s with
            stage := .preparing .manifestCheck, loop := .waiting 0, cancelled := false }, none)
      | _ => none
  | .prepared ok =>
      match s.stage with
      | .preparing p =>
          if ok then some ({ s with stage := p.next }, none)
          else some ({ s with stage := .abandoning fresh },
            some (c.report s.lease "failed" p.metrics))
      | _ => none
  | .containerEnded failed metrics =>
      match s.stage with
      | .running =>
          some ({ s with stage := .ended (if failed then "failed" else "succeeded") metrics }, none)
      | _ => none
  | .cancelJob =>
      match s.stage with
      | .ended status metrics =>
          some ({ s with stage := .reporting status metrics 1, cancelled := true }, none)
      | .abandoning _ => some ({ s with stage := .done, cancelled := true }, none)
      | _ => none
  | .report =>
      match s.stage with
      | .reporting status metrics attempt =>
          some ({ s with stage := .reported status metrics attempt fresh },
            some (c.report s.lease status metrics))
      | _ => none
  | .reportReply =>
      match s.stage with
      | .reported status metrics attempt n =>
          (reply n).map fun r => ({ s with stage := afterReport status metrics attempt r }, none)
      | _ => none
  | .reportError retryable =>
      match s.stage with
      | .reported status metrics attempt _ =>
          some ({ s with stage := retryReport status metrics attempt retryable }, none)
      | _ => none
  | .beat =>
      match s.loop with
      | .waiting fail => some ({ s with loop := .beating fail fresh }, some (c.heartbeat s.lease))
      | _ => none
  | .beatReply =>
      match s.loop with
      | .beating fail n =>
          (reply n).map fun r =>
            ({ s with loop := if r = .ok then .waiting 0 else .failed fail }, none)
      | _ => none
  | .beatError =>
      -- the heartbeat goroutine returns without a word to the job context
      match s.loop with
      | .beating fail _ => some ({ s with loop := .failed fail }, none)
      | _ => none
  | .contextDone =>
      match s.loop with
      | .waiting _ => if s.cancelled then some ({ s with loop := .stopped }, none) else none
      | _ => none

/-! ## The invariant of one call -/

/-- `onCandidate` has left the container run, or will not enter it, and has cancelled the job
context if it had one. -/
def Stage.Over : Stage → Prop
  | .reporting _ _ _ | .reported _ _ _ _ | .done => True
  | .start | .claiming _ | .waitingManifest | .preparing _ | .running | .ended _ _
  | .abandoning _ => False

/-- A loop that gave up had seen the job context cancelled, and that is the end of the run. -/
structure Local.Ok (s : Local) : Prop where
  gave_up : s.loop = .gaveUp → s.cancelled = true
  ended : s.cancelled = true → s.stage.Over

/-- Whether the move is the failure of a heartbeat, the last that the loop tolerates, while the job
context is not cancelled. -/
def thirdFailure (reply : ℕ → Option Reply) (s : Local) (m : Move) : Bool :=
  match s.loop, m with
  | .beating fail _, .beatError => maxFail ≤ fail + 1 && !s.cancelled
  | .beating fail n, .beatReply => reply n ≠ some .ok && (maxFail ≤ fail + 1 && !s.cancelled)
  | _, _ => false

theorem Local.ok_initial : Local.initial.Ok :=
  ⟨fun h => (nomatch h), fun h => (nomatch h)⟩

/-- A call that is not over has not cancelled its context. -/
theorem Local.Ok.not_cancelled {s : Local} (h : s.Ok) (hs : ¬ s.stage.Over) :
    s.cancelled = false := by
  by_contra hc
  exact hs (h.ended (by simpa using hc))

/-- A stage change of a call that is not over keeps the invariant. -/
theorem Local.Ok.with_stage {s : Local} (h : s.Ok) (hs : ¬ s.stage.Over) (stage : Stage)
    (lease : TaskLease) : Local.Ok { s with stage := stage, lease := lease } := by
  have hc := h.not_cancelled hs
  exact ⟨h.gave_up, fun hcancelled => absurd hcancelled (by simp [hc])⟩

/-- A failed heartbeat keeps the invariant, unless it is the third failure. -/
theorem Local.Ok.with_failed {s : Local} (h : s.Ok) {fail : ℕ}
    (hthird : maxFail ≤ fail + 1 → s.cancelled = true) :
    Local.Ok { s with loop := Loop.failed fail } := by
  refine ⟨?_, h.ended⟩
  intro hgave
  by_cases hfail : maxFail ≤ fail + 1
  · exact hthird hfail
  · simp [Loop.failed, hfail] at hgave

theorem retry_report_over (status : String) (metrics : List (String × String)) (attempt : ℕ)
    (retryable : Bool) : (retryReport status metrics attempt retryable).Over := by
  unfold retryReport
  split <;> trivial

theorem after_report_over (status : String) (metrics : List (String × String)) (attempt : ℕ)
    (r : Reply) : (afterReport status metrics attempt r).Over := by
  cases r with
  | error code message => exact retry_report_over ..
  | noContent | leaseOut | ok | panicked => trivial

/-- Every move but the third failure keeps the invariant. -/
theorem Candidate.move_ok {c : Candidate} {reply : ℕ → Option Reply} {fresh : ℕ} {s s' : Local}
    {m : Move} {p : Option Post} (h : c.move reply fresh s m = some (s', p)) (hs : s.Ok)
    (hthird : ¬ thirdFailure reply s m) : s'.Ok := by
  cases m with
  | tryClaim | claimError | containerEnded =>
      simp only [Candidate.move] at h
      split at h
      next hstage =>
          cases h
          exact hs.with_stage (by simp [hstage, Stage.Over]) _ _
      next => cases h
  | claimReply =>
      simp only [Candidate.move] at h
      split at h
      next n hstage =>
          split at h
          · cases h
            exact hs.with_stage (by simp [hstage, Stage.Over]) _ _
          · cases h
            exact hs.with_stage (by simp [hstage, Stage.Over]) _ _
          · cases h
      next => cases h
  | manifestWaited =>
      simp only [Candidate.move] at h
      split at h
      next =>
          -- the job context and the loop are new
          cases h
          exact ⟨fun hgave => (nomatch hgave), fun hcancelled => (nomatch hcancelled)⟩
      next => cases h
  | prepared ok =>
      simp only [Candidate.move] at h
      split at h
      next p hstage =>
          split at h <;> cases h <;> exact hs.with_stage (by simp [hstage, Stage.Over]) _ _
      next => cases h
  | cancelJob =>
      -- the container run is behind, so from here on the loop may give up
      simp only [Candidate.move] at h
      split at h
      · cases h
        exact ⟨fun _ => rfl, fun _ => trivial⟩
      · cases h
        exact ⟨fun _ => rfl, fun _ => trivial⟩
      · cases h
  | report =>
      simp only [Candidate.move] at h
      split at h
      · cases h
        exact ⟨hs.gave_up, fun _ => trivial⟩
      · cases h
  | reportReply =>
      simp only [Candidate.move] at h
      split at h
      · obtain ⟨r, -, heq⟩ := Option.map_eq_some_iff.mp h
        cases heq
        exact ⟨hs.gave_up, fun _ => after_report_over ..⟩
      · cases h
  | reportError retryable =>
      simp only [Candidate.move] at h
      split at h
      · cases h
        exact ⟨hs.gave_up, fun _ => retry_report_over ..⟩
      · cases h
  | beat =>
      simp only [Candidate.move] at h
      split at h
      · cases h
        exact ⟨fun hgave => (nomatch hgave), hs.ended⟩
      · cases h
  | beatReply =>
      simp only [Candidate.move] at h
      split at h
      next fail n hloop =>
          obtain ⟨r, hr, heq⟩ := Option.map_eq_some_iff.mp h
          cases heq
          by_cases hok : r = .ok
          · exact ⟨by simp [hok], hs.ended⟩
          · rw [if_neg hok]
            refine hs.with_failed fun hfail => ?_
            simpa [thirdFailure, hloop, hr, hok, hfail] using hthird
      next => cases h
  | beatError =>
      simp only [Candidate.move] at h
      split at h
      next fail n hloop =>
          cases h
          refine hs.with_failed fun hfail => ?_
          simpa [thirdFailure, hloop, hfail] using hthird
      next => cases h
  | contextDone =>
      simp only [Candidate.move] at h
      split at h
      · split at h
        · cases h
          exact ⟨fun hgave => (nomatch hgave), hs.ended⟩
        · cases h
      · cases h

end MutualCloud.Agent
