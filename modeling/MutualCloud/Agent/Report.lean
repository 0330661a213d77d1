import MutualCloud.Agent.Candidate
import MutualCloud.Control.Replies

/-!
# The report of a finished job

The report loop of `onCandidate` with `FinishClient.post` and `ShouldRetryFinish` of
`pkg/agent/finish_client.go`, over `finishHandler`. The agent sees of an error of the store only
the status that the handler chose for it, and decides by the text it makes of that status whether
to try again. `finish_retried_iff` says when a report is not lost to an error of the database, and
`finish_error_iff` for which errors the text leads to the decision that is documented.
-/

namespace MutualCloud.Agent

open Go Interaction Control

/-- The status code of a reply. There is none when the connection ended without an answer. -/
def statusCode : Reply → Option ℕ
  | .error code _ => some code
  | .noContent => some 204
  | .leaseOut _ _ | .ok => some 200
  | .panicked => none

/-- What `Client.Do` gives `FinishClient.post`: the text of a transport error, or a status code. -/
abbrev Exchange := Except String ℕ

/-- A reply of the control server as an exchange. The connection of a handler that panics ends. -/
def exchangeOf (reply : Reply) : Exchange :=
  match statusCode reply with
  | none => .error "EOF"
  | some code => .ok code

/-- The error of `FinishClient.post`. -/
def postError : Exchange → Option String
  | .error text => some ("finish http request failed: " ++ text)
  | .ok code =>
      if code ≥ 500 then some ("finish http server error: " ++ toString code)
      else if code ≥ 400 then some ("finish http client error: " ++ toString code)
      else none

/-- The error of `FinishClient.post` for a reply of the control server. -/
def post (reply : Reply) : Option String := postError (exchangeOf reply)

/-- `ShouldRetryFinish`. -/
def shouldRetryFinish (err : Option String) : Bool :=
  match err with
  | none => false
  | some msg =>
      contains msg "connection refused" || contains msg "timeout" || contains msg "server error"

/-- The attempts that the report loop makes, from the `attempt`-th on and with `left` of them left,
when the reply to the `k`-th is `reply k`. -/
def reportLoop (reply : ℕ → Reply) : ℕ → ℕ → List ℕ
  | 0, _ => []
  | left + 1, attempt =>
      match post (reply attempt) with
      | none => [attempt]
      | some err =>
          if shouldRetryFinish (some err) then attempt :: reportLoop reply left (attempt + 1)
          else [attempt]

/-! ## The replies of `finishHandler` -/

/-- How `finishHandler` ends once the request has passed its checks: with 409 when the statement
fails, else with 204. -/
theorem finish_handler_run {env : Env} {ns : String} {r : Request FinishIn} {call : FinishCall}
    (hcheck : finishRequest env r = .ok call) (inputs : ℕ → Input) (w : World) :
    (∃ e, (inputs 0).fault = some e ∧
      ((finishHandler env ns r).run effect inputs w).value =
        .error 409 ("finish failed: " ++ e) ∧
      ((finishHandler env ns r).run effect inputs w).events =
        [⟨.sql (.finish call.id call.agentID call.token call.outcome), inputs 0, .error e⟩]) ∨
    (∃ (n : ℕ) (rest : List Control.Event), (inputs 0).fault = none ∧
      ((finishHandler env ns r).run effect inputs w).value = .noContent ∧
      ((finishHandler env ns r).run effect inputs w).events =
        ⟨.sql (.finish call.id call.agentID call.token call.outcome), inputs 0, .ok n⟩ :: rest ∧
      ∀ e ∈ rest, e.call.NotSql) := by
  have hhandler : finishHandler env ns r = finishJob ns call := by
    unfold finishHandler
    rw [hcheck]
  rw [hhandler]
  cases hfault : (inputs 0).fault with
  | some e =>
      have hanswer : Store.effect (.finish call.id call.agentID call.token call.outcome)
          (inputs 0).toInput w.db = (.error e, w.db) := by
        simp [Store.effect, hfault]
      rw [finish_job_run_error hanswer]
      exact .inl ⟨e, rfl, rfl, rfl⟩
  | none =>
      have hmirror := Prog.run_always effect (mirror_finish_not_sql ns call.id call.outcome)
      obtain ⟨n, hn⟩ : ∃ n : ℕ, (Store.effect (.finish call.id call.agentID call.token call.outcome)
          (inputs 0).toInput w.db).1 = .ok n := by
        rcases finish_answer call w.db hfault with ⟨_, hone⟩ | ⟨_, hzero⟩
        · exact ⟨1, hone⟩
        · exact ⟨0, hzero⟩
      rw [finish_job_run_ok (Prod.ext hn rfl)]
      exact .inr ⟨n, _, rfl, rfl, rfl, hmirror _ _⟩

/-- The replies of `finishHandler`. -/
theorem finish_handler_status (env : Env) (ns : String) (r : Request FinishIn)
    (inputs : ℕ → Input) (w : World) :
    ((finishHandler env ns r).run effect inputs w).value = .noContent ∨
      ∃ code message, ((finishHandler env ns r).run effect inputs w).value = .error code message ∧
        code ∈ [400, 401, 405, 409] := by
  cases hcheck : finishRequest env r with
  | error reply =>
      obtain ⟨code, message, rfl, hcode⟩ := finish_request_status hcheck
      refine .inr ⟨code, message, ?_, ?_⟩
      · unfold finishHandler
        rw [hcheck]
        rfl
      · exact List.mem_append_left [409] hcode
  | ok call =>
      rcases finish_handler_run hcheck inputs w with ⟨e, _, hvalue, _⟩ | ⟨_, _, _, hvalue, _⟩
      · exact .inr ⟨409, _, hvalue, by simp⟩
      · exact .inl hvalue

/-! ## The texts of errors -/

/-- The text has one of the words by which `ShouldRetryFinish` knows an error. -/
def Recognized (text : String) : Prop :=
  contains text "connection refused" ∨ contains text "timeout" ∨ contains text "server error"

/-- A message is worth a retry when it is recognized. -/
theorem should_retry_iff (msg : String) : shouldRetryFinish (some msg) = true ↔ Recognized msg := by
  show (_ || _ || _) = true ↔ _
  rw [Bool.or_eq_true, Bool.or_eq_true, or_assoc]
  rfl

/-- A transport error is recognized by its own text: the text before it has none of the words, and
none of them begins in it. -/
theorem recognized_transport (text : String) :
    Recognized ("finish http request failed: " ++ text) ↔ Recognized text := by
  unfold Recognized
  rw [contains_append (by decide), contains_append (by decide), contains_append (by decide)]

/-- The text of a status from 500 on is recognized. -/
theorem recognized_server (code : ℕ) :
    Recognized ("finish http server error: " ++ toString code) := by
  refine .inr (.inr (contains_iff.mpr ?_))
  refine ⟨"finish http ".toList, (": " ++ toString code).toList, ?_⟩
  simp

/-- A status is written in digits. -/
theorem digit_of_mem_code {code : ℕ} {c : Char} (h : c ∈ (toString code).toList) :
    c.isDigit = true := by
  have hdigits : (toString code).toList = Nat.toDigits 10 code := Nat.toList_repr
  rw [hdigits] at h
  exact Nat.isDigit_of_mem_toDigits (by decide) (by decide) h

/-- The text of a status below 500 is not recognized: each word has a letter that is not in it. -/
theorem not_recognized_client (code : ℕ) :
    ¬ Recognized ("finish http client error: " ++ toString code) := by
  have hmissing : ∀ c : Char, c ∉ "finish http client error: ".toList → c.isDigit = false →
      c ∉ ("finish http client error: " ++ toString code).toList := by
    intro c htext hdigit hmem
    rw [String.toList_append] at hmem
    rcases List.mem_append.mp hmem with hmem | hmem
    · exact htext hmem
    · rw [digit_of_mem_code hmem] at hdigit
      cases hdigit
  intro h
  rcases h with h | h | h
  · rw [not_contains_of_not_mem (c := 'd') (by decide) (hmissing _ (by decide) rfl)] at h
    cases h
  · rw [not_contains_of_not_mem (c := 'm') (by decide) (hmissing _ (by decide) rfl)] at h
    cases h
  · rw [not_contains_of_not_mem (c := 'v') (by decide) (hmissing _ (by decide) rfl)] at h
    cases h

/-- No error with a status of the client is worth a retry to the agent. -/
theorem not_retried {code : ℕ} (hmin : 400 ≤ code) (hmax : code < 500) (message : String) :
    ∃ err, post (.error code message) = some err ∧ shouldRetryFinish (some err) = false := by
  refine ⟨"finish http client error: " ++ toString code, ?_, ?_⟩
  · show (if code ≥ 500 then _ else if code ≥ 400 then _ else _) = _
    rw [if_neg (by omega), if_pos (by omega)]
  · apply Bool.eq_false_iff.mpr
    intro hretry
    exact not_recognized_client code ((should_retry_iff _).mp hretry)

/-- The errors of `finishHandler` have a status of the client. -/
theorem client_status {code : ℕ} (hcode : code ∈ [400, 401, 405, 409]) :
    400 ≤ code ∧ code < 500 := by
  simp only [List.mem_cons, List.not_mem_nil, or_false] at hcode
  omega

/-! ## The report loop -/

/-- The loop makes one attempt. -/
theorem report_loop_once (env : Env) (ns : String) (r : Request FinishIn)
    (inputs : ℕ → ℕ → Input) (w : ℕ → World) (left attempt : ℕ) :
    reportLoop (fun k => ((finishHandler env ns r).run effect (inputs k) (w k)).value) (left + 1)
      attempt = [attempt] := by
  rw [reportLoop]
  rcases finish_handler_status env ns r (inputs attempt) (w attempt) with
    hvalue | ⟨code, message, hvalue, hcode⟩
  · rw [hvalue]
    rfl
  · obtain ⟨hmin, hmax⟩ := client_status hcode
    obtain ⟨err, herr, hretry⟩ := not_retried hmin hmax message
    rw [hvalue, herr]
    simp [hretry]

/-- The stage of a candidate after the reply to a report is that of the loop. -/
theorem after_report_eq (env : Env) (ns : String) (r : Request FinishIn) (inputs : ℕ → Input)
    (w : World) (status : String) (metrics : List (String × String)) (attempt : ℕ) :
    afterReport status metrics attempt ((finishHandler env ns r).run effect inputs w).value =
      retryReport status metrics attempt
        (shouldRetryFinish (post ((finishHandler env ns r).run effect inputs w).value)) := by
  rcases finish_handler_status env ns r inputs w with hvalue | ⟨code, message, hvalue, hcode⟩
  · rw [hvalue]
    rfl
  · obtain ⟨hmin, hmax⟩ := client_status hcode
    obtain ⟨err, herr, hretry⟩ := not_retried hmin hmax message
    have hlt : ¬ code ≥ 500 := by omega
    rw [hvalue, herr, hretry]
    simp [afterReport, hlt]

/-! ## Errors of the database -/

/-- `store.Finish` was called and its statement was answered with `answer`. -/
def FinishAnswered (events : List Control.Event) (answer : Except Store.SqlError ℕ) : Prop :=
  ∃ id agentID token outcome input,
    ⟨.sql (.finish id agentID token outcome), input, answer⟩ ∈ events

/-- A report is not lost to an error of the database: the loop stops early only after an attempt
whose statement updated the row or was refused by its guard, and an attempt whose statement
failed is followed by another while there are attempts left. -/
def Retried (attempts : ℕ → Prog.Run Call Call.Response Input World Reply) : Prop :=
  let made := reportLoop (fun k => (attempts k).value) maxFinishRetries 1
  (made.length < maxFinishRetries →
    ∃ k n, made.getLast? = some k ∧ FinishAnswered (attempts k).events (.ok n)) ∧
  (∀ k ∈ made, ∀ e, FinishAnswered (attempts k).events (.error e) → k < maxFinishRetries →
    k + 1 ∈ made)

/-- When a report is not lost to an error of the database: exactly when the statement of the
first attempt does not fail. The world may be any at each attempt. -/
theorem finish_retried_iff (env : Env) (ns : String) (c : Candidate) (lease : TaskLease)
    (status : String) (metrics : List (String × String)) (inputs : ℕ → ℕ → Input) (w : ℕ → World)
    {call : FinishCall}
    (hcheck : finishRequest env (reportRequest c lease status metrics) = .ok call) :
    Retried (fun k => (finishHandler env ns (reportRequest c lease status metrics)).run effect
      (inputs k) (w k)) ↔
      (inputs 1 0).fault = none := by
  have hmade : reportLoop (fun k => ((finishHandler env ns
      (reportRequest c lease status metrics)).run effect (inputs k) (w k)).value)
      maxFinishRetries 1 = [1] := report_loop_once ..
  unfold Retried
  rw [hmade]
  rcases @finish_handler_run env ns _ call hcheck (inputs 1) (w 1) with
    ⟨e, hfault, _, hevents⟩ | ⟨n, rest, hfault, _, hevents, hrest⟩
  · refine iff_of_false ?_ (by simp [hfault])
    rintro ⟨_, hretry⟩
    have hfailed : FinishAnswered ((finishHandler env ns
        (reportRequest c lease status metrics)).run effect (inputs 1) (w 1)).events (.error e) := by
      rw [hevents]
      exact ⟨_, _, _, _, _, List.mem_singleton_self _⟩
    have htwo := hretry 1 (List.mem_singleton_self 1) e hfailed (by decide)
    simp at htwo
  · refine iff_of_true ⟨?_, ?_⟩ hfault
    · intro _
      refine ⟨1, n, rfl, ?_⟩
      rw [hevents]
      exact ⟨_, _, _, _, _, List.mem_cons_self⟩
    · intro k hk e hfailed
      rw [List.mem_singleton.mp hk, hevents] at hfailed
      obtain ⟨id, agentID, token, outcome, input, hmem⟩ := hfailed
      rcases List.mem_cons.mp hmem with heq | hmem
      · cases heq
      · exact absurd rfl (hrest _ hmem _)

/-! ## Which errors are retried -/

/-- The exchange failed for a reason that may pass: in the network, or with a status from 500 on. -/
def Temporary : Exchange → Prop
  | .error _ => True
  | .ok code => code ≥ 500

/-- How a report that failed is classified. For every outcome of `Client.Do`, the error is worth a
retry exactly when it is a transport error or has a status from 500 on, if and only if the text of
a transport error has one of the three words. -/
theorem finish_error_iff (o : Exchange) :
    (shouldRetryFinish (postError o) = true ↔ Temporary o) ↔
      ∀ text, o = .error text → Recognized text := by
  cases o with
  | error text =>
      have hretry : shouldRetryFinish (postError (.error text)) = true ↔ Recognized text :=
        (should_retry_iff _).trans (recognized_transport text)
      rw [hretry]
      constructor
      · intro h text' heq
        cases heq
        exact h.mpr trivial
      · intro h
        exact ⟨fun _ => trivial, fun _ => h text rfl⟩
  | ok code =>
      refine iff_of_true ?_ nofun
      show shouldRetryFinish (
        if code ≥ 500 then some ("finish http server error: " ++ toString code)
        else if code ≥ 400 then some ("finish http client error: " ++ toString code)
        else none) = true ↔ code ≥ 500
      split
      next hserver =>
        exact ⟨fun _ => hserver, fun _ => (should_retry_iff _).mpr (recognized_server code)⟩
      next hserver =>
        refine ⟨fun hretry => ?_, fun h => absurd h hserver⟩
        split at hretry
        · exact absurd ((should_retry_iff _).mp hretry) (not_recognized_client code)
        · cases hretry

/-- The client of the agent gives up waiting for the control server. The text that it makes of that
has a capital letter in the word, so the report is not sent again. -/
theorem timeout_not_retried :
    let o : Exchange := .error ("Post \"http://127.0.0.1:8080/jobs/job/finish\": context " ++
      "deadline exceeded (Client.Timeout exceeded while awaiting headers)")
    Temporary o ∧ shouldRetryFinish (postError o) = false := by
  refine ⟨trivial, ?_⟩
  decide +kernel

namespace Sample

/-- A candidate for the sample job. -/
def candidate : Candidate := ⟨"a", "job", 15, ""⟩

/-- The lease of the sample job. -/
def lease : TaskLease := ⟨"a", "", 0, 1⟩

/-- The world in which the sample job is claimed. -/
def world : World := ⟨(Store.play Store.Sample.claimed).2, fun _ => none, [], false⟩

/-- The database fails at the first attempt only. -/
def firstFails (attempt _ : ℕ) : Input :=
  { now := 3, fault := if attempt = 1 then some "connection reset by peer" else none }

end Sample

/-- A report whose first statement does not fail. -/
theorem finish_retried_iff_reported :
    Retried (fun k => (finishHandler Control.Sample.env "mc"
      (reportRequest Sample.candidate Sample.lease "succeeded" [])).run effect
      ((fun _ _ => { now := 3 }) k) ((fun _ => Sample.world) k)) := by
  have hcheck : finishRequest Control.Sample.env
      (reportRequest Sample.candidate Sample.lease "succeeded" []) =
      .ok ⟨"job", "a", 1, ⟨true, "", none, some []⟩⟩ := by rfl
  exact (finish_retried_iff Control.Sample.env "mc" Sample.candidate Sample.lease "succeeded" []
    (fun _ _ => { now := 3 }) (fun _ => Sample.world) hcheck).mpr rfl

/-- The database fails once; the handler answers 409, the agent takes that for a final answer and
stops after one attempt, although the next one would have finished the job. -/
theorem finish_dropped :
    let attempts := fun k => (finishHandler Control.Sample.env "mc"
      (reportRequest Sample.candidate Sample.lease "succeeded" [])).run effect
      (Sample.firstFails k) Sample.world
    ¬ Retried attempts ∧ FinishAnswered (attempts 2).events (.ok 1) := by
  intro attempts
  have hmade : reportLoop (fun k => (attempts k).value) maxFinishRetries 1 = [1] :=
    report_loop_once ..
  have hfailed : FinishAnswered (attempts 1).events (.error "connection reset by peer") :=
    ⟨"job", "a", 1, ⟨true, "", none, some []⟩, Sample.firstFails 1 0, List.mem_singleton_self _⟩
  have hlater : FinishAnswered (attempts 2).events (.ok 1) :=
    ⟨"job", "a", 1, ⟨true, "", none, some []⟩, Sample.firstFails 2 0, List.mem_cons_self⟩
  refine ⟨?_, hlater⟩
  unfold Retried
  rw [hmade]
  rintro ⟨_, hretry⟩
  have htwo := hretry 1 (List.mem_singleton_self 1) _ hfailed (by decide)
  simp at htwo

end MutualCloud.Agent
