import MutualCloud.Agent.Fetch
import MutualCloud.Agent.Outcomes

/-!
# What the record of a job tells

Between its claim and its report `onCandidate` reads the manifest and the meta of the job from the
DHT, fetches the inputs and runs the container (`RunInContainer` of `pkg/agent/runner.go`). The
system of agents leaves open how these end. `Encounter` is what one call meets on its way, and
`Encounter.body` is what comes of it. In every execution whose calls go by their bodies, a job that
has ended has on record what the body of one call for it came to: `succeeded` exactly if the
manifest, the meta and the inputs were there and the container run passed (`record_tells`).
-/

namespace MutualCloud.Agent

open Go KeyedTable Interaction Labelled Store Control

/-! ## The container run -/

/-- The error of `cmd.Run`: an `*exec.ExitError`, or another one. -/
inductive RunError where
  | exit (code : Int)
  | other (text : String)

/-- What a run of `docker` leaves behind. -/
structure Ended where
  error : Option RunError
  stdout : Bytes
  stderr : Bytes
  duration : Duration

/-- The machine of an agent. -/
structure Machine where
  /-- The error of `exec.LookPath("docker")`. -/
  lookPath : Option String
  /-- `filepath.Abs`. -/
  abs : String → Except String String
  /-- `docker` with these arguments, on these files. -/
  docker : List String → Files → Ended

/-- `RunResult`. -/
structure RunResult where
  exitCode : Int
  stdout : Bytes
  stderr : Bytes
  duration : Duration

/-- `bytes.Contains(b, []byte(text))`. -/
def containsText (b : Bytes) (text : String) : Bool :=
  b.tails.any fun rest => text.toUTF8.data.toList.isPrefixOf rest

/-- The messages of a program that cannot read its input image. -/
def forgiven (stderr : Bytes) : Bool :=
  containsText stderr "unable to open image" ||
    containsText stderr "no decode delegate for this image format"

/-- The exit code that an error of `cmd.Run` stands for. -/
def exitCode : Option RunError → Int
  | none => 0
  | some (.exit code) => code
  | some (.other _) => -1

/-- The arguments of `docker`. -/
def dockerArgs (absWorkDir image : String) (command : List String) : List String :=
  ["run", "--rm", "-w", "/app", "-v", absWorkDir ++ ":/app", image] ++ command

/-- `RunInContainer`, without the two log files, which nothing reads. -/
def runInContainer (m : Machine) (fs : Files) (workDir image : String) (command : List String) :
    Except String RunResult :=
  match m.lookPath with
  | some e => .error ("docker command not found: " ++ e)
  | none =>
      match m.abs workDir with
      | .error e => .error ("could not get absolute path for work dir: " ++ e)
      | .ok absWorkDir =>
          let ended := m.docker (dockerArgs absWorkDir image command) fs
          let exit := exitCode ended.error
          let exit := if exit ≠ 0 then if forgiven ended.stderr then 0 else exit else exit
          .ok ⟨exit, ended.stdout, ended.stderr, ended.duration⟩

/-- The metrics of a container run, in the order of their JSON text. -/
def RunResult.metrics (r : RunResult) : List (String × String) :=
  [("duration_ms", toString (r.duration.tdiv 1000000)), ("exit_code", toString r.exitCode),
    ("stderr_bytes", toString r.stderr.length), ("stdout_bytes", toString r.stdout.length)]

/-! ## The way to the container run -/

/-- What a call of `onCandidate` meets after its claim. -/
structure Encounter where
  /-- The root CID and the providers of the manifest that `d.GetJSON` returns, each provider with
  what the receiver meets when it tries it. -/
  manifest : Option (String × List Attempt)
  /-- The meta that `d.GetJSON` returns. -/
  taskMeta : Option TaskMeta
  /-- The files before the transfer. -/
  files : Files
  machine : Machine

/-- `workDir`. -/
def workDir (jobID : String) : String := "./work/" ++ jobID

/-- `inputDir`, which `filepath.Join` cleans already here. It is only joined to other names, and
`join` cleans the whole. -/
def inputDir (jobID : String) : String := workDir jobID ++ "/input"

namespace Encounter

/-- The files with which the container starts, if the transfer of the inputs does not fail. The
comparison is `strings.EqualFold`, which takes no other letters for those of `noop`. -/
def fetchInput (e : Encounter) (jobID rootCID : String) (providers : List Attempt) :
    Option Files :=
  if toLower rootCID ≠ "noop" ∧ providers ≠ [] then
    match fetchAny rootCID (inputDir jobID) providers none e.files with
    | (.ok _, fs) => some fs
    | (.error _, _) => none
  else some e.files

/-- The body of `onCandidate`: the preparation that fails, or what `RunInContainer` returns. -/
def body (e : Encounter) (jobID : String) : Except Preparation (Except String RunResult) :=
  match e.manifest with
  | none => .error .manifestCheck
  | some (rootCID, providers) =>
      if rootCID = "" then .error .manifestCheck
      else match e.taskMeta with
        | none => .error .getMeta
        | some taskMeta =>
            match e.fetchInput jobID rootCID providers with
            | none => .error .fetchInput
            | some fs => .ok (runInContainer e.machine fs (workDir jobID) taskMeta.image
                (taskMeta.command.getD []))

end Encounter

/-- How many preparations come before this one. -/
def Preparation.before : Preparation → ℕ
  | manifestCheck => 0
  | getMeta => 1
  | fetchInput => 2

/-- The moves of a call whose body comes to this. -/
def bodyMoves : Except Preparation (Except String RunResult) → List Move
  | .error p => List.replicate p.before (.prepared true) ++ [.prepared false]
  | .ok (.error _) => List.replicate 3 (.prepared true) ++ [.containerEnded true []]
  | .ok (.ok r) =>
      List.replicate 3 (.prepared true) ++ [.containerEnded (r.exitCode ≠ 0) r.metrics]

/-- The status and the metrics that are reported of a body. -/
def bodyReport : Except Preparation (Except String RunResult) →
    String × List (String × String)
  | .error p => ("failed", p.metrics)
  | .ok (.error _) => ("failed", [])
  | .ok (.ok r) => (if r.exitCode ≠ 0 then "failed" else "succeeded", r.metrics)

/-- The manifest, the meta and the inputs are there, and `docker` ends with the exit code zero or
with one of the messages that are forgiven. -/
def Encounter.Passes (e : Encounter) (jobID : String) : Prop :=
  ∃ rootCID providers taskMeta fs absWorkDir,
    e.manifest = some (rootCID, providers) ∧ rootCID ≠ "" ∧ e.taskMeta = some taskMeta ∧
    e.fetchInput jobID rootCID providers = some fs ∧ e.machine.lookPath = none ∧
    e.machine.abs (workDir jobID) = .ok absWorkDir ∧
    let ended := e.machine.docker
      (dockerArgs absWorkDir taskMeta.image (taskMeta.command.getD [])) fs
    exitCode ended.error = 0 ∨ forgiven ended.stderr

/-- When `RunInContainer` returns the exit code zero. -/
theorem run_in_container_zero_iff (m : Machine) (fs : Files) (dir image : String)
    (command : List String) :
    (∃ r, runInContainer m fs dir image command = .ok r ∧ r.exitCode = 0) ↔
      m.lookPath = none ∧ ∃ absWorkDir, m.abs dir = .ok absWorkDir ∧
        (exitCode (m.docker (dockerArgs absWorkDir image command) fs).error = 0 ∨
          forgiven (m.docker (dockerArgs absWorkDir image command) fs).stderr) := by
  unfold runInContainer
  cases m.lookPath with
  | some e => simp
  | none =>
      cases m.abs dir with
      | error e => simp
      | ok absWorkDir =>
          simp only [Except.ok.injEq, exists_eq_left', true_and]
          split <;> simp_all

/-- When a body comes to its container run. -/
theorem body_ok_iff (e : Encounter) (jobID : String) (ran : Except String RunResult) :
    e.body jobID = .ok ran ↔ ∃ rootCID providers taskMeta fs,
      e.manifest = some (rootCID, providers) ∧ rootCID ≠ "" ∧ e.taskMeta = some taskMeta ∧
      e.fetchInput jobID rootCID providers = some fs ∧
      ran = runInContainer e.machine fs (workDir jobID) taskMeta.image
        (taskMeta.command.getD []) := by
  unfold Encounter.body
  cases e.manifest with
  | none => simp
  | some man =>
      obtain ⟨rootCID, providers⟩ := man
      by_cases hroot : rootCID = ""
      · simp [hroot]
      cases e.taskMeta with
      | none => simp [hroot]
      | some taskMeta =>
          cases hfetch : e.fetchInput jobID rootCID providers with
          | none => simp [hroot, hfetch]
          | some fs => simp [hroot, hfetch, eq_comm]

/-- What is reported as a success is a container run with the exit code zero. -/
theorem report_succeeded_iff (b : Except Preparation (Except String RunResult)) :
    toLower (bodyReport b).1 = "succeeded" ↔ ∃ r, b = .ok (.ok r) ∧ r.exitCode = 0 := by
  have hfailed : toLower "failed" ≠ "succeeded" := by decide
  have hsucceeded : toLower "succeeded" = "succeeded" := by decide
  cases b with
  | error p => simp [bodyReport, hfailed]
  | ok ran =>
      cases ran with
      | error text => simp [bodyReport, hfailed]
      | ok r =>
          by_cases hexit : r.exitCode = 0
          · simp [bodyReport, hexit, hsucceeded]
          · simp [bodyReport, hexit, hfailed]

/-- A body is reported as a success exactly if it passes. -/
theorem body_succeeded_iff (e : Encounter) (jobID : String) :
    toLower (bodyReport (e.body jobID)).1 = "succeeded" ↔ e.Passes jobID := by
  rw [report_succeeded_iff]
  constructor
  · rintro ⟨r, hbody, hexit⟩
    obtain ⟨rootCID, providers, taskMeta, fs, hman, hroot, hmeta, hfetch, hran⟩ :=
      (body_ok_iff e jobID _).mp hbody
    obtain ⟨hdocker, absWorkDir, habs, hpassed⟩ :=
      (run_in_container_zero_iff ..).mp ⟨r, hran.symm, hexit⟩
    exact ⟨rootCID, providers, taskMeta, fs, absWorkDir, hman, hroot, hmeta, hfetch, hdocker, habs,
      hpassed⟩
  · rintro ⟨rootCID, providers, taskMeta, fs, absWorkDir, hman, hroot, hmeta, hfetch, hdocker, habs,
      hpassed⟩
    obtain ⟨r, hran, hexit⟩ :=
      (run_in_container_zero_iff ..).mpr ⟨hdocker, absWorkDir, habs, hpassed⟩
    exact ⟨r, (body_ok_iff e jobID _).mpr
      ⟨rootCID, providers, taskMeta, fs, hman, hroot, hmeta, hfetch, hran.symm⟩, hexit⟩

/-! ## How far a call has come -/

/-- The move is one between the start of the heartbeats and the report. -/
def Move.ofBody : Move → Bool
  | .prepared _ | .containerEnded _ _ => true
  | .tryClaim | .claimReply | .claimError | .manifestWaited | .cancelJob | .report | .reportReply
  | .reportError _ | .beat | .beatReply | .beatError | .contextDone => false

/-- How far a call has come on its way to the report. -/
inductive Progress where
  | preparing (p : Preparation)
  | running
  | ended (status : String) (metrics : List (String × String))

/-- The preparation that follows, or the container run. -/
def Preparation.after : Preparation → Progress
  | manifestCheck => .preparing .getMeta
  | getMeta => .preparing .fetchInput
  | fetchInput => .running

/-- One move further. -/
def Progress.advance : Progress → Move → Progress
  | .preparing p, .prepared true => p.after
  | .preparing p, .prepared false => .ended "failed" p.metrics
  | .running, .containerEnded failed metrics =>
      .ended (if failed then "failed" else "succeeded") metrics
  | progress, _ => progress

/-- How far these moves lead. -/
def progressOf (moves : List Move) : Progress :=
  moves.foldl Progress.advance (.preparing .manifestCheck)

theorem progress_of_snoc (moves : List Move) (m : Move) :
    progressOf (moves ++ [m]) = (progressOf moves).advance m := by
  simp [progressOf]

/-- A call whose preparations all succeed is not over before its container run is. -/
theorem not_over_of_prepared (n : ℕ) (status : String) (metrics : List (String × String)) :
    progressOf (List.replicate n (.prepared true)) ≠ .ended status metrics := by
  induction n generalizing status metrics with
  | zero => exact fun h => (by cases h)
  | succ n ih =>
      rw [List.replicate_succ', progress_of_snoc]
      cases hprogress : progressOf (List.replicate n (.prepared true)) with
      | preparing p => cases p <;> exact fun h => (by cases h)
      | running => exact fun h => (by cases h)
      | ended status metrics => exact absurd hprogress (ih status metrics)

/-- The last move of a body ends it with its report. -/
theorem progress_of_body (b : Except Preparation (Except String RunResult)) :
    progressOf (bodyMoves b) = .ended (bodyReport b).1 (bodyReport b).2 := by
  cases b with
  | error p => cases p <;> rfl
  | ok ran =>
      cases ran with
      | error text => rfl
      | ok r =>
          show Progress.ended (if (decide (r.exitCode ≠ 0)) = true then _ else _) _ = _
          simp [bodyReport]

/-- A body ends with its last move only. -/
theorem body_moves_last (b : Except Preparation (Except String RunResult)) :
    ∃ n m, bodyMoves b = List.replicate n (.prepared true) ++ [m] := by
  cases b with
  | error p => exact ⟨_, _, rfl⟩
  | ok ran => cases ran <;> exact ⟨_, _, rfl⟩

/-- A call that goes by its body is over when it has made all the moves of its body, and reports
what its body came to. -/
theorem over_of_body {b : Except Preparation (Except String RunResult)} {moves : List Move}
    (hmoves : moves <+: bodyMoves b) {status : String} {metrics : List (String × String)}
    (hover : progressOf moves = .ended status metrics) :
    moves = bodyMoves b ∧ bodyReport b = (status, metrics) := by
  obtain ⟨n, m, hbody⟩ := body_moves_last b
  have hall : moves = bodyMoves b := by
    rw [hbody] at hmoves ⊢
    rcases List.prefix_concat_iff.mp hmoves with hall | hpart
    · exact hall
    · rw [(List.prefix_replicate_iff.mp hpart).2] at hover
      exact absurd hover (not_over_of_prepared _ status metrics)
  refine ⟨hall, ?_⟩
  rw [hall, progress_of_body] at hover
  cases hover
  rfl

/-- The stage of a call that has come this far. -/
def Stage.Agrees : Stage → Progress → Prop
  | .start, progress | .claiming _, progress | .waitingManifest, progress =>
      progress = .preparing .manifestCheck
  | .preparing p, progress => progress = .preparing p
  | .running, progress => progress = .running
  | .ended status metrics, progress | .reporting status metrics _, progress
  | .reported status metrics _ _, progress => progress = .ended status metrics
  | .abandoning _, _ | .done, _ => True

/-- A report that failed is about the same result when it is sent again. -/
theorem agrees_of_retry {stage : Stage} {status : String} {metrics : List (String × String)}
    {attempt : ℕ} (h : stage = .done ∨ stage = .reporting status metrics attempt) :
    stage.Agrees (.ended status metrics) := by
  rcases h with rfl | rfl
  · trivial
  · rfl

/-- A move takes a call as far as its stage tells, and what it reports is what it has come to. -/
theorem Candidate.move_agrees {c : Candidate} {reply : ℕ → Option Reply} {fresh : ℕ}
    {s s' : Local} {m : Move} {p : Option Post} (h : c.move reply fresh s m = some (s', p))
    {progress : Progress} (hs : s.stage.Agrees progress) :
    s'.stage.Agrees (progress.advance m) ∧
      (∀ r, s.tells m = some r → progress.advance m = .ended r.1 r.2) ∧
      (m.ofBody → ¬ s.stage.Reports) := by
  cases m with
  | tryClaim | claimError | manifestWaited | cancelJob | report | beat | beatError =>
      simp only [Candidate.move] at h
      split at h <;> cases h <;> simp_all [Stage.Agrees, Progress.advance, Local.tells, Move.ofBody]
  | claimReply =>
      simp only [Candidate.move] at h
      split at h
      · split at h <;> cases h <;>
          simp_all [Stage.Agrees, Progress.advance, Local.tells, Move.ofBody]
      · cases h
  | prepared ok =>
      simp only [Candidate.move] at h
      split at h
      next q hstage =>
          rw [hstage] at hs
          replace hs : progress = .preparing q := hs
          subst hs
          cases ok with
          | true =>
              cases h
              refine ⟨?_, fun r hr => (by cases hr), by simp [hstage, Stage.Reports]⟩
              cases q <;> rfl
          | false =>
              cases h
              refine ⟨trivial, ?_, by simp [hstage, Stage.Reports]⟩
              intro r hr
              simp only [Local.tells, hstage] at hr
              cases hr
              rfl
      next => cases h
  | containerEnded failed metrics =>
      simp only [Candidate.move] at h
      split at h <;> cases h
      simp_all [Stage.Agrees, Progress.advance, Local.tells, Stage.Reports]
  | reportReply =>
      simp only [Candidate.move] at h
      split at h
      next status metrics attempt n hstage =>
          obtain ⟨r, -, heq⟩ := Option.map_eq_some_iff.mp h
          cases heq
          rw [hstage] at hs
          cases hs
          exact ⟨agrees_of_retry (after_report_stage ..), fun r hr => (by cases hr),
            fun hbody => (by cases hbody)⟩
      next => cases h
  | reportError retryable =>
      simp only [Candidate.move] at h
      split at h
      next status metrics attempt n hstage =>
          cases h
          rw [hstage] at hs
          cases hs
          exact ⟨agrees_of_retry (retry_report_stage ..), fun r hr => (by cases hr),
            fun hbody => (by cases hbody)⟩
      next => cases h
  | beatReply =>
      simp only [Candidate.move] at h
      split at h
      · obtain ⟨r, -, heq⟩ := Option.map_eq_some_iff.mp h
        cases heq
        exact ⟨by cases progress <;> exact hs, fun r hr => (by cases hr),
          fun hbody => (by cases hbody)⟩
      · cases h
  | contextDone =>
      simp only [Candidate.move] at h
      split at h
      · split at h <;> cases h
        exact ⟨by cases progress <;> exact hs, fun r hr => (by cases hr),
          fun hbody => (by cases hbody)⟩
      · cases h

/-! ## What a row has on record -/

section Record

variable {τ : Type} [DecidableEq τ] {setup : Setup τ} {s s' : System τ}
  {history : List (Action τ × Option Store.Event)} {l : Action τ × Option Store.Event}
  {token : τ → Option Int} {tells : τ → Option Outcome}

/-- The moves of a call between the start of its heartbeats and its report. -/
def bodyOf (i : τ) (actions : List (Action τ)) : List Move :=
  actions.filterMap fun
    | .move j m => if j = i ∧ m.ofBody then some m else none
    | _ => none

/-- A step takes a call further by a move of its body only. -/
theorem body_of_snoc (i : τ) (actions : List (Action τ)) (a : Action τ) :
    (progressOf (bodyOf i (actions ++ [a])) = progressOf (bodyOf i actions) ∧
      ∀ m, a = .move i m → m.ofBody = false) ∨
    ∃ m, a = .move i m ∧ m.ofBody ∧
      progressOf (bodyOf i (actions ++ [a])) = (progressOf (bodyOf i actions)).advance m := by
  have hsnoc : bodyOf i (actions ++ [a]) = bodyOf i actions ++ bodyOf i [a] :=
    List.filterMap_append
  by_cases hmove : ∃ m, a = .move i m ∧ m.ofBody
  · obtain ⟨m, rfl, hbody⟩ := hmove
    have hlast : bodyOf i [Action.move i m] = [m] := by simp [bodyOf, hbody]
    exact .inr ⟨m, rfl, hbody, by rw [hsnoc, hlast, progress_of_snoc]⟩
  · have hnone : bodyOf i [a] = [] := by
      cases a with
      | move j m =>
          by_cases hj : j = i
          · subst hj
            have hbody : m.ofBody = false := by
              by_contra htrue
              exact hmove ⟨m, rfl, by simpa using htrue⟩
            simp [bodyOf, hbody]
          · simp [bodyOf, hj]
      | createJob | attachManifest | deliver | serve | lose | requeue => rfl
    refine .inl ⟨by rw [hsnoc, hnone, List.append_nil], ?_⟩
    intro m hm
    by_contra htrue
    exact hmove ⟨m, hm, by simpa using htrue⟩

/-- The calls have come as far as their stages tell, and what they report is what they have come
to. -/
structure Told (history : List (Action τ × Option Store.Event)) (s : System τ)
    (tells : τ → Option Outcome) : Prop where
  agrees : ∀ i, (s.locals i).stage.Agrees (progressOf (bodyOf i (history.map Prod.fst)))
  told : ∀ i outcome, tells i = some outcome → ∃ status metrics,
    progressOf (bodyOf i (history.map Prod.fst)) = .ended status metrics ∧
      outcome = reportOutcome (status, metrics)

/-- A move that is none of the body leaves a call where it is. -/
theorem advance_of_not_body {m : Move} (h : m.ofBody = false) (progress : Progress) :
    progress.advance m = progress := by
  cases m with
  | prepared | containerEnded => cases h
  | tryClaim | claimReply | claimError | manifestWaited | cancelJob | report | reportReply
  | reportError | beat | beatReply | beatError | contextDone => cases progress <;> rfl

theorem Told.step (htold : Told history s tells) (h : Ledger setup history s token tells)
    (hacts : System.Acts setup s l s') : Told (history ++ [l]) s' (s.speak l.1 tells) := by
  have hall : ∀ i,
      (s'.locals i).stage.Agrees (progressOf (bodyOf i ((history ++ [l]).map Prod.fst))) ∧
      ∀ outcome, s.speak l.1 tells i = some outcome → ∃ status metrics,
        progressOf (bodyOf i ((history ++ [l]).map Prod.fst)) = .ended status metrics ∧
          outcome = reportOutcome (status, metrics) := by
    intro i
    rw [List.map_append]
    rcases System.locals_step hacts.1 i with ⟨hother, hsame⟩ | ⟨m, p, ha, hmove⟩
    · have hprogress : progressOf (bodyOf i (history.map Prod.fst ++ [l.1])) =
          progressOf (bodyOf i (history.map Prod.fst)) := by
        rcases body_of_snoc i (history.map Prod.fst) l.1 with ⟨hkept, -⟩ | ⟨m, ha, -⟩
        · exact hkept
        · exact absurd ha (hother m)
      show _ ∧ _
      rw [List.map_singleton, hprogress, hsame, speak_of_quiet fun m hm => absurd hm (hother m)]
      exact ⟨htold.agrees i, htold.told i⟩
    · obtain ⟨hagrees, hreports, hfirst⟩ := Candidate.move_agrees hmove (htold.agrees i)
      have hprogress : progressOf (bodyOf i (history.map Prod.fst ++ [l.1])) =
          (progressOf (bodyOf i (history.map Prod.fst))).advance m := by
        rcases body_of_snoc i (history.map Prod.fst) l.1 with ⟨hkept, hnot⟩ | ⟨m', ha', -, hnext⟩
        · rw [hkept, advance_of_not_body (hnot m ha)]
        · cases ha.symm.trans ha'
          exact hnext
      rw [List.map_singleton, hprogress]
      refine ⟨hagrees, ?_⟩
      intro outcome houtcome
      rw [ha] at houtcome
      cases htells : (s.locals i).tells m with
      | some r =>
          rw [speak_move htells] at houtcome
          cases houtcome
          exact ⟨r.1, r.2, hreports r htells, rfl⟩
      | none =>
          rw [speak_of_quiet (fun m' hm' => (by cases hm'; exact htells))] at houtcome
          obtain ⟨status, metrics, hover, hsaid⟩ := htold.told i outcome houtcome
          refine ⟨status, metrics, ?_, hsaid⟩
          have hbody : m.ofBody = false := by
            by_contra htrue
            rw [h.silent i (hfirst (by simpa using htrue))] at houtcome
            cases houtcome
          rw [advance_of_not_body hbody, hover]
  exact ⟨fun i => (hall i).1, fun i => (hall i).2⟩

/-- In every execution the terminal rows have on record what the calls have come to. -/
theorem told_run (hexec : Execution (System.Acts setup) System.initial history s) :
    ∃ token tells, Ledger setup history s token tells ∧ Recorded setup history s tells ∧
      Told history s tells :=
  recorded_run_with ⟨fun _ => rfl, fun _ _ hsaid => (by cases hsaid)⟩
    (fun _ h htold hacts => htold.step h hacts) hexec

/-- The record of a job tells what happened. In every execution in which the calls of the agents go
by what they meet, whatever is delayed, lost and repeated: a job that has ended has on record what
the body of a call for it came to, with all the moves of the body made, under the token of that
call. The status is `succeeded` exactly if the manifest, the meta and the inputs were there and the
container run passed. -/
theorem record_tells {actions : List (Action τ)}
    (hexec : Execution (fun s a s' => System.next setup s a = some s') System.initial actions s)
    {encounter : τ → Encounter}
    (hmeets : ∀ i, bodyOf i actions <+:
      bodyMoves ((encounter i).body (setup.candidate i).jobID))
    {id : String} {row : Row} (hrow : s.world.db.lookup id = some row)
    (hterminal : row.status.Terminal) :
    ∃ i, (setup.candidate i).jobID = id ∧ (s.locals i).lease.version = row.leaseToken ∧
      bodyOf i actions = bodyMoves ((encounter i).body id) ∧
      row.result = (reportOutcome (bodyReport ((encounter i).body id))).result ∧
      (row.status = .succeeded ↔ (encounter i).Passes id) := by
  obtain ⟨history, rfl, hacts⟩ := System.acts_of_execution hexec
  obtain ⟨token, tells, h, hrecorded, htold⟩ := told_run hacts
  obtain ⟨i, call, hi, hid, htoken, hresult⟩ := hrecorded id row hrow hterminal
  obtain ⟨status, metrics, hover, hsaid⟩ := htold.told i _ hi.said
  have hjob : (setup.candidate i).jobID = id := hi.job.trans hid
  have hbody := hmeets i
  rw [hjob] at hbody
  obtain ⟨hall, hreport⟩ := over_of_body hbody hover
  have hversion : (s.locals i).lease.version = row.leaseToken := by
    have hsound := (System.store_run hacts).sound id row hrow
    refine hi.version_eq h (by rw [hid]; exact hrow) ?_
    rw [htoken, int64_uint64 hsound.token_nonneg hsound.token_lt]
  rw [hsaid, ← hreport] at hresult
  refine ⟨i, hjob, hversion, hall, hresult, ?_⟩
  have hstatus : row.status = (reportOutcome (bodyReport ((encounter i).body id))).status :=
    congrArg Result.status hresult
  rw [hstatus, ← body_succeeded_iff]
  simp [Outcome.status, reportOutcome]

end Record

namespace Sample

/-- A call that has nothing to fetch and whose program fails, with a message that is forgiven. -/
def met : Encounter where
  manifest := some ("noop", [])
  taskMeta := some ⟨"job", 1, "image", some ["convert", "input"]⟩
  files := fun _ => none
  machine := {
    lookPath := none
    abs := fun dir => .ok ("/home/" ++ dir)
    docker := fun _ _ => ⟨some (.exit 1), [], "unable to open image".toUTF8.data.toList, 5000000⟩ }

/-- What the agent `a` reports of it. -/
def metMetrics : List (String × String) :=
  [("duration_ms", "5"), ("exit_code", "0"), ("stderr_bytes", "20"), ("stdout_bytes", "0")]

/-- The agent `a` claims the job, runs it and reports. -/
def told : List (Action Bool) :=
  .createJob Store.Sample.job { now := 1 } :: claimAndRun true 0 2 ++
    [.move true (.containerEnded false metMetrics), .move true .cancelJob, .move true .report,
      .deliver 1, .serve 1 { now := 3 }]

theorem met_body : ∃ r, met.body "job" = .ok (.ok r) ∧ r.exitCode = 0 ∧ r.metrics = metMetrics :=
  ⟨_, rfl, by decide, by decide⟩

theorem told_meets (i : Bool) :
    bodyOf i told <+: bodyMoves (met.body (Sample.setup.candidate i).jobID) := by
  have hjob : (Sample.setup.candidate i).jobID = "job" := by cases i <;> rfl
  obtain ⟨r, hbody, hexit, hmetrics⟩ := met_body
  rw [hjob, hbody]
  simp only [bodyMoves, hexit, hmetrics]
  cases i with
  | false => exact List.nil_prefix
  | true => exact List.prefix_rfl

end Sample

/-- The failure of the program is on record as a success. -/
theorem record_tells_forgiven :
    ∃ s : System Bool, ∃ row, s.world.db.lookup "job" = some row ∧ row.status = .succeeded ∧
      row.metrics = some (some Sample.metMetrics) ∧ Sample.met.Passes "job" := by
  have hplay : ∃ s, System.play Sample.setup (fun _ _ => true) Sample.told System.initial = some s ∧
      ∃ row, s.world.db.lookup "job" = some row ∧ row.status = .succeeded ∧
        row.metrics = some (some Sample.metMetrics) := ⟨_, rfl, _, rfl, rfl, rfl⟩
  obtain ⟨s, hs, row, hrow, hstatus, hmetrics⟩ := hplay
  have hmeets : ∀ i, bodyOf i Sample.told <+:
      bodyMoves (((fun _ => Sample.met) i).body (Sample.setup.candidate i).jobID) :=
    Sample.told_meets
  obtain ⟨i, -, -, -, -, hpasses⟩ :=
    record_tells (System.execution_of_play hs) hmeets hrow (.inl hstatus)
  exact ⟨s, row, hrow, hstatus, hmetrics, hpasses.mp hstatus⟩

end MutualCloud.Agent
