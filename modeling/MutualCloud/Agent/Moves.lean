import MutualCloud.Agent.System
import MutualCloud.Control.Grace

/-!
# The steps of the system and their statements

`System.Acts` is a step of the system together with the statement that it sends to the store, so
that the statements of an execution are a run of the store (`System.store_run`). The rest tells once
what a step can do to a request, to the number of the next one and to a call of `onCandidate`
(`System.pending_step`, `Candidate.moved`).
-/

namespace MutualCloud.Agent

open Go KeyedTable Interaction Labelled Store Control

/-! ## Steps with their statements -/

section Steps

variable {τ : Type} [DecidableEq τ]

/-- What the control server has still to do for a request. -/
def Conn.code (setup : Setup τ) : Conn → Code Reply
  | .sent p => p.handle setup.env setup.ns
  | .serving code => code

namespace System

/-- The statement that an action sends, with the response of the store. -/
def statement (s : System τ) : Action τ → Option Store.Event
  | .createJob job input =>
      some ⟨.createJob job, input, (Store.effect (.createJob job) input s.world.db).1⟩
  | .attachManifest id m input =>
      some ⟨.attachManifest id m, input, (Store.effect (.attachManifest id m) input s.world.db).1⟩
  | .serve n input =>
      match s.conns n with
      | some (.serving (.call c _)) =>
          Control.Event.statement ⟨c, input, (Control.effect c input s.world).1⟩
      | _ => none
  | .requeue input =>
      match s.requeuer with
      | .call c _ => Control.Event.statement ⟨c, input, (Control.effect c input s.world).1⟩
      | .done _ => none
  | .deliver _ | .lose _ | .move _ _ => none

/-- One step, labelled with the statement that it sends. -/
def Acts (setup : Setup τ) (s : System τ) (l : Action τ × Option Store.Event) (s' : System τ) :
    Prop :=
  s.next setup l.1 = some s' ∧ l.2 = s.statement l.1

/-- The rest of the handler of a request that is under way. -/
def pending (setup : Setup τ) (s : System τ) (n : ℕ) : Option (Code Reply) :=
  (s.conns n).map (Conn.code setup)

end System

/-- The statements of a history, oldest first. -/
def storeHistory (history : List (Action τ × Option Store.Event)) : List Store.Event :=
  history.filterMap Prod.snd

namespace System

variable {setup : Setup τ} {s s' : System τ} {l : Action τ × Option Store.Event}
  {history : List (Action τ × Option Store.Event)}

/-- A list of possible steps is an execution. -/
theorem execution_of_play {actions : List (Action τ)}
    (h : play setup (fun _ _ => true) actions s = some s') :
    Execution (fun s a s' => next setup s a = some s') s actions s' :=
  (play_execution h).imp fun _ _ _ hstep => hstep.1

/-- Every execution can be labelled, and what it allows stays allowed. -/
theorem acts_of_allowed {start : System τ} {actions : List (Action τ)}
    {allowed : System τ → Action τ → Prop}
    (h : Execution (fun s a s' => next setup s a = some s' ∧ allowed s a) start actions s) :
    ∃ history, history.map Prod.fst = actions ∧
      Execution (fun s l s' => Acts setup s l s' ∧ allowed s l.1) start history s := by
  induction h with
  | refl => exact ⟨[], rfl, .refl⟩
  | @snoc before middle finish a _ hstep ih =>
      obtain ⟨history, hactions, hexec⟩ := ih
      refine ⟨history ++ [(a, middle.statement a)], ?_, hexec.snoc ⟨⟨hstep.1, rfl⟩, hstep.2⟩⟩
      rw [List.map_append, hactions]
      rfl

/-- Every execution can be labelled. -/
theorem acts_of_execution {start : System τ} {actions : List (Action τ)}
    (h : Execution (fun s a s' => next setup s a = some s') start actions s) :
    ∃ history, history.map Prod.fst = actions ∧ Execution (Acts setup) start history s := by
  have hall : Execution (fun s a s' => next setup s a = some s' ∧ True) start actions s :=
    h.imp fun _ _ _ hstep => ⟨hstep, trivial⟩
  obtain ⟨history, hactions, hexec⟩ := acts_of_allowed hall
  exact ⟨history, hactions, hexec.imp fun _ _ _ hstep => hstep.1⟩

/-- The actions of a labelled execution. -/
theorem execution_of_acts {start : System τ} {history : List (Action τ × Option Store.Event)}
    (h : Execution (Acts setup) start history s) :
    Execution (fun s a s' => next setup s a = some s') start (history.map Prod.fst) s := by
  induction h with
  | refl => exact .refl
  | snoc _ hstep ih =>
      rw [List.map_append]
      exact ih.snoc hstep.1

/-- The call of a step that sends a statement. -/
theorem call_of_statement {c : Call} {input : Control.Input} {response : c.Response}
    {e : Store.Event} (h : Control.Event.statement ⟨c, input, response⟩ = some e) :
    c = .sql e.call := by
  cases c with
  | sql stmt =>
      cases h
      rfl
  | getJSON | putJSON | delJSON | timeNow | enqueue => cases h

/-- A step of a handler acts on the database by the statement it sends. -/
theorem serve_db (c : Call) (input : Control.Input) (w : World) :
    match Control.Event.statement ⟨c, input, (Control.effect c input w).1⟩ with
    | some e => Store.Step w.db e (Control.effect c input w).2.db
    | none => (Control.effect c input w).2.db = w.db :=
  statement_step (e := ⟨c, input, (Control.effect c input w).1⟩) rfl

/-- A step acts on the database by the statement that it sends, and not at all without one. -/
theorem Acts.store (h : Acts setup s l s') :
    match l.2 with
    | some e => Store.Step s.world.db e s'.world.db
    | none => s'.world.db = s.world.db := by
  obtain ⟨a, e⟩ := l
  obtain ⟨hnext, he⟩ := h
  replace he : e = s.statement a := he
  subst he
  cases a with
  | createJob job input =>
      simp only [next] at hnext
      split at hnext
      · cases hnext
        exact effect_step (.createJob job) input s.world.db
      · cases hnext
  | attachManifest id m input =>
      cases hnext
      exact effect_step (.attachManifest id m) input s.world.db
  | deliver n | lose n =>
      simp only [next] at hnext
      split at hnext <;> cases hnext <;> rfl
  | serve n input =>
      simp only [next] at hnext
      split at hnext
      next c k hconn =>
          cases hnext
          simp only [statement, hconn]
          exact serve_db c input s.world
      next => cases hnext
  | requeue input =>
      simp only [next] at hnext
      split at hnext
      next hdone =>
          cases hnext
          simp only [statement, hdone]
      next c k hcall =>
          cases hnext
          simp only [statement, hcall]
          exact serve_db c input s.world
  | move i m =>
      obtain ⟨⟨l, p⟩, -, heq⟩ := Option.map_eq_some_iff.mp hnext
      cases heq
      exact congrArg World.db (post_world _ p)

/-- The statements of an execution are an execution of the store. -/
theorem store_execution {start : System τ} (h : Execution (Acts setup) start history s) :
    Execution Store.Step start.world.db (storeHistory history) s.world.db := by
  refine h.simulate (I := fun _ => True) (fun s => s.world.db) Prod.snd trivial
    (fun _ _ _ _ _ => trivial) ?_ ?_
  · intro s l s' e _ hstep he
    have hstore := hstep.store
    rwa [he] at hstore
  · intro s l s' _ hstep he
    have hstore := hstep.store
    rwa [he] at hstore

/-- The statements of an execution from the start are a run of the store. -/
theorem store_run (h : Execution (Acts setup) initial history s) :
    Run (storeHistory history) s.world.db :=
  store_execution h

omit [DecidableEq τ] in
/-- A reply is what the handler of its request has ended with. -/
theorem pending_of_reply {n : ℕ} {r : Reply} (h : s.reply n = some r) :
    s.pending setup n = some (.done r) := by
  unfold reply at h
  split at h
  next r' hconn =>
      split at h
      · cases h
      · cases h
        simp [pending, hconn, Conn.code]
  next => cases h

/-- Everything that a step can do to a request. -/
inductive Pending (setup : Setup τ) (s : System τ) (a : Action τ) (s' : System τ) (n : ℕ) :
    Prop where
  | served (input : Control.Input) (c : Call) (k : c.Response → Code Reply)
      (serve : a = .serve n input) (conn : s.conns n = some (.serving (.call c k)))
      (code : s'.pending setup n = some (k (Control.effect c input s.world).1))
  | kept (other : ∀ input, a ≠ .serve n input) (code : s'.pending setup n = s.pending setup n)
  | lost (other : ∀ input, a ≠ .serve n input) (code : s'.pending setup n = none)
  | posted (i : τ) (m : Move) (p : Post) (move : a = .move i m)
      (moves : (setup.candidate i).move s.reply s.fresh (s.locals i) m =
        some (s'.locals i, some p))
      (number : n = s.fresh) (code : s'.pending setup n = some (p.handle setup.env setup.ns))

theorem pending_step {a : Action τ} (h : s.next setup a = some s') (n : ℕ) :
    Pending setup s a s' n := by
  cases a with
  | createJob job input =>
      simp only [next] at h
      split at h <;> cases h
      exact .kept (fun _ h => by cases h) rfl
  | attachManifest id m input =>
      cases h
      exact .kept (fun _ h => by cases h) rfl
  | deliver k =>
      simp only [next] at h
      split at h
      next p hconn =>
          cases h
          refine .kept (fun _ h => by cases h) ?_
          by_cases hn : n = k
          · subst hn
            simp [pending, hconn, Conn.code]
          · simp [pending, Function.update_of_ne hn]
      next => cases h
  | serve k input =>
      simp only [next] at h
      split at h
      next c code hconn =>
          cases h
          by_cases hn : n = k
          · subst hn
            exact .served input c code rfl hconn (by simp [pending, Conn.code])
          · refine .kept ?_ (by simp [pending, Function.update_of_ne hn])
            intro input' heq
            cases heq
            exact hn rfl
      next => cases h
  | lose k =>
      have hlost : s' = { s with conns := Function.update s.conns k none } := by
        simp only [next] at h
        split at h <;> cases h <;> rfl
      subst hlost
      by_cases hn : n = k
      · subst hn
        exact .lost (fun _ h => by cases h) (by simp [pending])
      · exact .kept (fun _ h => by cases h) (by simp [pending, Function.update_of_ne hn])
  | requeue input =>
      simp only [next] at h
      split at h <;> cases h <;> exact .kept (fun _ h => by cases h) rfl
  | move i m =>
      obtain ⟨⟨l, p⟩, hmove, heq⟩ := Option.map_eq_some_iff.mp h
      cases heq
      cases p with
      | none => exact .kept (fun _ h => by cases h) rfl
      | some p =>
          by_cases hn : n = s.fresh
          · subst hn
            refine .posted i m p rfl ?_ rfl ?_
            · simpa [post] using hmove
            · simp [pending, post, Conn.code]
          · exact .kept (fun _ h => by cases h) (by simp [pending, post, Function.update_of_ne hn])

/-- The numbers of requests only grow. -/
theorem fresh_step {a : Action τ} (h : s.next setup a = some s') : s.fresh ≤ s'.fresh := by
  cases a with
  | createJob | deliver | serve | lose | requeue =>
      simp only [next] at h
      split at h <;> cases h <;> exact le_rfl
  | attachManifest =>
      cases h
      exact le_rfl
  | move i m =>
      obtain ⟨⟨l, p⟩, -, heq⟩ := Option.map_eq_some_iff.mp h
      cases heq
      cases p with
      | none => exact le_rfl
      | some p => exact Nat.le_succ _

/-- A post uses up a number. -/
theorem fresh_post {i : τ} {m : Move} {local' : Local} {p : Post}
    (h : s.next setup (.move i m) = some s')
    (hmove : (setup.candidate i).move s.reply s.fresh (s.locals i) m = some (local', some p)) :
    s'.fresh = s.fresh + 1 := by
  simp only [next, hmove, Option.map_some, Option.some.injEq] at h
  rw [← h]
  rfl

/-- What is posted waits under this number for its handler. -/
theorem pending_post {i : τ} {m : Move} {local' : Local} {p : Post}
    (h : s.next setup (.move i m) = some s')
    (hmove : (setup.candidate i).move s.reply s.fresh (s.locals i) m = some (local', some p)) :
    s'.pending setup s.fresh = some (p.handle setup.env setup.ns) := by
  simp only [next, hmove, Option.map_some, Option.some.injEq] at h
  rw [← h]
  simp [pending, post, Conn.code]

/-- A step leaves a call as it is, or is a move of it. -/
theorem locals_step {a : Action τ} (h : s.next setup a = some s') (j : τ) :
    ((∀ m, a ≠ .move j m) ∧ s'.locals j = s.locals j) ∨ ∃ m p, a = .move j m ∧
      (setup.candidate j).move s.reply s.fresh (s.locals j) m = some (s'.locals j, p) := by
  cases a with
  | createJob | deliver | serve | lose | requeue =>
      simp only [next] at h
      split at h <;> cases h <;> exact .inl ⟨fun _ h => (by cases h), rfl⟩
  | attachManifest =>
      cases h
      exact .inl ⟨fun _ h => (by cases h), rfl⟩
  | move i m =>
      obtain ⟨⟨l, p⟩, hmove, heq⟩ := Option.map_eq_some_iff.mp h
      cases heq
      by_cases hj : j = i
      · subst hj
        exact .inr ⟨m, p, rfl, by simpa using hmove⟩
      · refine .inl ⟨?_, by simp [Function.update_of_ne hj]⟩
        intro m' heq
        cases heq
        exact hj rfl

/-- `requeueLoop` is left as it is, begins a tick, or takes a step of it. -/
theorem requeuer_step {a : Action τ} (h : s.next setup a = some s') :
    s'.requeuer = s.requeuer ∨ s'.requeuer = requeueTick ∨
      ∃ c k r, s.requeuer = .call c k ∧ s'.requeuer = k r := by
  cases a with
  | createJob | deliver | serve | lose =>
      simp only [next] at h
      split at h <;> cases h <;> exact .inl rfl
  | attachManifest =>
      cases h
      exact .inl rfl
  | requeue input =>
      simp only [next] at h
      split at h
      next =>
          cases h
          exact .inr (.inl rfl)
      next c k hcall =>
          cases h
          exact .inr (.inr ⟨c, k, _, hcall, rfl⟩)
  | move i m =>
      obtain ⟨⟨l, p⟩, -, heq⟩ := Option.map_eq_some_iff.mp h
      cases heq
      cases p <;> exact .inl rfl

end System

end Steps

/-! ## What a move of a call does -/

namespace Stage

/-- The call has its lease. -/
def Claimed : Stage → Prop
  | .waitingManifest | .preparing _ | .running | .ended _ _ | .abandoning _ | .reporting _ _ _
  | .reported _ _ _ _ => True
  | .start | .claiming _ | .done => False

/-- The call has posted its report, or is about to, or has ended. -/
def Reports : Stage → Prop
  | .abandoning _ | .reporting _ _ _ | .reported _ _ _ _ | .done => True
  | .start | .claiming _ | .waitingManifest | .preparing _ | .running | .ended _ _ => False

/-- The call has claimed its job and has not come to its report. -/
def Engaged (stage : Stage) : Prop := stage ≠ .start ∧ ¬ stage.Reports

/-- A call that has its lease does not wait for the reply to its claim. -/
theorem Claimed.ne_claiming {stage : Stage} (h : stage.Claimed) (n : ℕ) :
    stage ≠ .claiming n := by
  intro hstage
  rw [hstage] at h
  exact h

/-- A call that reports does not wait for the reply to its claim. -/
theorem Reports.ne_claiming {stage : Stage} (h : stage.Reports) (n : ℕ) :
    stage ≠ .claiming n := by
  intro hstage
  rw [hstage] at h
  exact h

/-- What the container run ended with, once it has. -/
def result : Stage → Option (String × List (String × String))
  | .ended status metrics | .reporting status metrics _ | .reported status metrics _ _ =>
      some (status, metrics)
  | .start | .claiming _ | .waitingManifest | .preparing _ | .running | .abandoning _ | .done =>
      none

end Stage

/-- What a move reports, if it posts a report: the status and the metrics. -/
def Local.tells (s : Local) : Move → Option (String × List (String × String))
  | .prepared false =>
      match s.stage with
      | .preparing p => some ("failed", p.metrics)
      | _ => none
  | .report =>
      match s.stage with
      | .reporting status metrics _ => some (status, metrics)
      | _ => none
  | _ => none

/-- Only a call that has its lease reports. -/
theorem Local.claimed_of_tells {s : Local} {m : Move} {r : String × List (String × String)}
    (h : s.tells m = some r) : s.stage.Claimed := by
  unfold Local.tells at h
  split at h
  · split at h
    next hstage => simp [hstage, Stage.Claimed]
    next => cases h
  · split at h
    next hstage => simp [hstage, Stage.Claimed]
    next => cases h
  · cases h

/-- What a move of a call that has its lease leads to. -/
structure Onward (c : Candidate) (s : Local) (m : Move) (s' : Local) (p : Option Post) : Prop where
  claimed : s.stage.Claimed
  next : s'.stage.Claimed ∨ s'.stage = .done
  lease : s'.lease = s.lease
  reports : s.stage.Reports → s'.stage.Reports
  result : ∀ r, s'.stage.result = some r → s.stage.result = some r ∨
    ¬ s.stage.Reports ∧ ∃ failed metrics, m = .containerEnded failed metrics ∧
      r = (if failed then "failed" else "succeeded", metrics)
  post : (s.tells m = none ∧ p = none) ∨ ∃ status metrics, s.tells m = some (status, metrics) ∧
    p = some (c.report s.lease status metrics) ∧ s'.stage.Reports ∧
    (¬ s.stage.Reports ∧ s'.stage.result = none ∧ status = "failed" ∨
      s.stage.result = some (status, metrics) ∧ s'.stage.result = s.stage.result)

/-- A report that failed is sent again with the same result, or is the last. -/
theorem retry_report_stage (status : String) (metrics : List (String × String)) (attempt : ℕ)
    (retryable : Bool) :
    retryReport status metrics attempt retryable = .done ∨
      retryReport status metrics attempt retryable = .reporting status metrics (attempt + 1) := by
  unfold retryReport
  split
  · exact .inr rfl
  · exact .inl rfl

/-- The stage after a reply to a report. -/
theorem after_report_stage (status : String) (metrics : List (String × String)) (attempt : ℕ)
    (r : Reply) :
    afterReport status metrics attempt r = .done ∨
      afterReport status metrics attempt r = .reporting status metrics (attempt + 1) := by
  cases r with
  | error code message => exact retry_report_stage ..
  | noContent | leaseOut | ok | panicked => exact .inl rfl

/-- A call that has its lease and comes to the end of its reports, or to the next of them. -/
theorem onward_report {c : Candidate} {s : Local} {m : Move} {status : String}
    {metrics : List (String × String)} {attempt request : ℕ} {stage : Stage}
    (hstage : s.stage = .reported status metrics attempt request) (htells : s.tells m = none)
    (hnext : stage = .done ∨ stage = .reporting status metrics (attempt + 1)) :
    Onward c s m { s with stage := stage } none := by
  rcases hnext with rfl | rfl
  · exact ⟨by simp [hstage, Stage.Claimed], .inr rfl, rfl, fun _ => trivial,
      fun r hr => (by cases hr), .inl ⟨htells, rfl⟩⟩
  · refine ⟨by simp [hstage, Stage.Claimed], .inl trivial, rfl, fun _ => trivial, ?_,
      .inl ⟨htells, rfl⟩⟩
    intro r hr
    exact .inl (by rw [hstage]; exact hr)

/-- Everything that a move can do to the stage and the lease of a call, and what it posts. -/
inductive Moved (c : Candidate) (reply : ℕ → Option Reply) (fresh : ℕ) (s : Local) (m : Move)
    (s' : Local) (p : Option Post) : Prop where
  /-- A move of the heartbeat goroutine. -/
  | beats (stage : s'.stage = s.stage) (lease : s'.lease = s.lease) (quiet : s.tells m = none)
      (post : p = none ∨ p = some (c.heartbeat s.lease))
  | claims (start : s.stage = .start) (stage : s'.stage = .claiming fresh)
      (lease : s'.lease = s.lease) (post : p = some c.tryClaim)
  | refused (n : ℕ) (claiming : s.stage = .claiming n) (stage : s'.stage = .done)
      (lease : s'.lease = s.lease) (post : p = none)
  | granted (n : ℕ) (claiming : s.stage = .claiming n)
      (answer : reply n = some (.leaseOut true s'.lease)) (stage : s'.stage = .waitingManifest)
      (post : p = none)
  | onward (h : Onward c s m s' p)

theorem Candidate.moved {c : Candidate} {reply : ℕ → Option Reply} {fresh : ℕ} {s s' : Local}
    {m : Move} {p : Option Post} (h : c.move reply fresh s m = some (s', p)) :
    Moved c reply fresh s m s' p := by
  cases m with
  | tryClaim =>
      simp only [Candidate.move] at h
      split at h
      next hstage =>
          cases h
          exact .claims hstage rfl rfl rfl
      next => cases h
  | claimReply =>
      simp only [Candidate.move] at h
      split at h
      next n hstage =>
          split at h
          next lease hreply =>
              cases h
              exact .granted n hstage hreply rfl rfl
          next =>
              cases h
              exact .refused n hstage rfl rfl rfl
          next => cases h
      next => cases h
  | claimError =>
      simp only [Candidate.move] at h
      split at h
      next n hstage =>
          cases h
          exact .refused n hstage rfl rfl rfl
      next => cases h
  | manifestWaited =>
      simp only [Candidate.move] at h
      split at h
      next hstage =>
          cases h
          refine .onward ⟨?_, .inl trivial, rfl, ?_, ?_, .inl ⟨rfl, rfl⟩⟩
          · simp [hstage, Stage.Claimed]
          · simp [hstage, Stage.Reports]
          · intro r hr
            cases hr
      next => cases h
  | prepared ok =>
      simp only [Candidate.move] at h
      split at h
      next prep hstage =>
          have hclaimed : s.stage.Claimed := by simp [hstage, Stage.Claimed]
          have hreports : ¬ s.stage.Reports := by simp [hstage, Stage.Reports]
          cases ok with
          | true =>
              cases h
              refine .onward ⟨hclaimed, ?_, rfl, fun h => absurd h hreports, ?_, .inl ⟨rfl, rfl⟩⟩
              · cases prep <;> exact .inl trivial
              · intro r hr
                cases prep <;> cases hr
          | false =>
              cases h
              refine .onward ⟨hclaimed, .inl trivial, rfl, fun _ => trivial, ?_, .inr ?_⟩
              · intro r hr
                cases hr
              · refine ⟨"failed", prep.metrics, ?_, rfl, trivial, .inl ⟨hreports, rfl, rfl⟩⟩
                simp only [Local.tells, hstage]
      next => cases h
  | containerEnded failed metrics =>
      simp only [Candidate.move] at h
      split at h
      next hstage =>
          cases h
          refine .onward ⟨?_, .inl trivial, rfl, ?_, ?_, .inl ⟨rfl, rfl⟩⟩
          · simp [hstage, Stage.Claimed]
          · simp [hstage, Stage.Reports]
          · intro r hr
            exact .inr ⟨by simp [hstage, Stage.Reports], failed, metrics, rfl,
              (Option.some.inj hr).symm⟩
      next => cases h
  | cancelJob =>
      simp only [Candidate.move] at h
      split at h
      next status metrics hstage =>
          cases h
          refine .onward ⟨?_, .inl trivial, rfl, fun _ => trivial, ?_, .inl ⟨rfl, rfl⟩⟩
          · simp [hstage, Stage.Claimed]
          · intro r hr
            exact .inl (by rw [hstage]; exact hr)
      next n hstage =>
          cases h
          refine .onward ⟨?_, .inr rfl, rfl, fun _ => trivial, ?_, .inl ⟨rfl, rfl⟩⟩
          · simp [hstage, Stage.Claimed]
          · intro r hr
            cases hr
      next => cases h
  | report =>
      simp only [Candidate.move] at h
      split at h
      next status metrics attempt hstage =>
          cases h
          refine .onward ⟨?_, .inl trivial, rfl, fun _ => trivial, ?_, ?_⟩
          · simp [hstage, Stage.Claimed]
          · intro r hr
            exact .inl (by rw [hstage]; exact hr)
          · refine .inr ⟨status, metrics, ?_, rfl, trivial, .inr ?_⟩
            · simp only [Local.tells, hstage]
            · rw [hstage]
              exact ⟨rfl, rfl⟩
      next => cases h
  | reportReply =>
      simp only [Candidate.move] at h
      split at h
      next status metrics attempt n hstage =>
          obtain ⟨r, -, heq⟩ := Option.map_eq_some_iff.mp h
          cases heq
          exact .onward (onward_report hstage rfl (after_report_stage ..))
      next => cases h
  | reportError retryable =>
      simp only [Candidate.move] at h
      split at h
      next status metrics attempt n hstage =>
          cases h
          exact .onward (onward_report hstage rfl (retry_report_stage ..))
      next => cases h
  | beat =>
      simp only [Candidate.move] at h
      split at h
      · cases h
        exact .beats rfl rfl rfl (.inr rfl)
      · cases h
  | beatReply =>
      simp only [Candidate.move] at h
      split at h
      · obtain ⟨r, -, heq⟩ := Option.map_eq_some_iff.mp h
        cases heq
        exact .beats rfl rfl rfl (.inl rfl)
      · cases h
  | beatError =>
      simp only [Candidate.move] at h
      split at h
      · cases h
        exact .beats rfl rfl rfl (.inl rfl)
      · cases h
  | contextDone =>
      simp only [Candidate.move] at h
      split at h
      · split at h
        · cases h
          exact .beats rfl rfl rfl (.inl rfl)
        · cases h
      · cases h

/-- A move that reports is one of a call with a lease. -/
theorem Candidate.onward_of_tells {c : Candidate} {reply : ℕ → Option Reply} {fresh : ℕ}
    {s s' : Local} {m : Move} {p : Option Post} {r : String × List (String × String)}
    (h : c.move reply fresh s m = some (s', p)) (htells : s.tells m = some r) :
    Onward c s m s' p := by
  have hclaimed := Local.claimed_of_tells htells
  cases Candidate.moved h with
  | beats _ _ hquiet =>
      rw [hquiet] at htells
      cases htells
  | claims hstart =>
      rw [hstart] at hclaimed
      exact hclaimed.elim
  | refused n hclaiming | granted n hclaiming => exact absurd hclaiming (hclaimed.ne_claiming n)
  | onward honward => exact honward

/-- A move that reports posts its report. -/
theorem Candidate.post_of_tells {c : Candidate} {reply : ℕ → Option Reply} {fresh : ℕ}
    {s s' : Local} {m : Move} {p : Option Post} {r : String × List (String × String)}
    (h : c.move reply fresh s m = some (s', p)) (htells : s.tells m = some r) :
    p = some (c.report s.lease r.1 r.2) := by
  rcases (Candidate.onward_of_tells h htells).post with
    ⟨hnone, -⟩ | ⟨status, metrics, htold, hpost, -⟩
  · rw [hnone] at htells
    cases htells
  · rw [htold] at htells
    cases htells
    exact hpost

end MutualCloud.Agent
