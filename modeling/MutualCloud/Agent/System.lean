import MutualCloud.Agent.Candidate
import MutualCloud.Store.Runs

/-!
# Agents, control server and network

The whole system: any number of calls of `onCandidate`, by any agents and for any jobs, the control
server with the handlers it is running and its `requeueLoop`, and a network that delays and loses
requests and replies as it likes. `System.next` is one atomic step of one of them; every clock
reading and every failure is a parameter of the step.

A heartbeat loop that gives up returns without cancelling the job context, so an execution that is
in its container stays there. The invariant of one call, `Local.Ok`, survives every step but this
one (`System.ok_step`).
-/

namespace MutualCloud.Agent

open Go KeyedTable Interaction Labelled Store Control

/-- A request on its way to the control server, or the handler that is serving it. A handler that
has ended holds its reply. -/
inductive Conn where
  | sent (p : Post)
  | serving (code : Code Reply)

/-- What is fixed: the environment and namespace of the control server, and the calls of
`onCandidate`. -/
structure Setup (τ : Type) where
  env : Env
  ns : String
  candidate : τ → Candidate

/-- The state of the system. -/
structure System (τ : Type) where
  world : World
  /-- The requests by number; a lost one has no connection. -/
  conns : ℕ → Option Conn
  /-- The number of the next request. -/
  fresh : ℕ
  /-- The rest of the tick of `requeueLoop` that is under way. -/
  requeuer : Code Unit
  locals : τ → Local

/-- An empty database and DHT, and nothing begun. -/
def System.initial {τ : Type} : System τ where
  world := ⟨∅, fun _ => none, [], false⟩
  conns := fun _ => none
  fresh := 0
  requeuer := .done ()
  locals := fun _ => .initial

/-- The steps of the system. -/
inductive Action (τ : Type) where
  /-- A client creates a job, which every caller does with status `queued`. -/
  | createJob (job : DBJob) (input : Store.Input)
  | attachManifest (id : String) (m : Manifest) (input : Store.Input)
  /-- A request arrives, and its handler starts. -/
  | deliver (n : ℕ)
  /-- A handler takes its next step. -/
  | serve (n : ℕ) (input : Control.Input)
  /-- A request or a reply is lost. -/
  | lose (n : ℕ)
  /-- `requeueLoop` takes its next step, or begins its next tick. -/
  | requeue (input : Control.Input)
  | move (i : τ) (m : Move)

namespace System

variable {τ : Type} [DecidableEq τ]

/-- The reply to a request, once its handler has ended. A handler that panicked sends none. -/
def reply (s : System τ) (n : ℕ) : Option Reply :=
  match s.conns n with
  | some (.serving (.done r)) => if r = .panicked then none else some r
  | _ => none

/-- A statement of a client of the control server. -/
def client (s : System τ) (stmt : Stmt) (input : Store.Input) : System τ :=
  { s with world := { s.world with db := (Store.effect stmt input s.world.db).2 } }

/-- Post a request under the next number. -/
def post (s : System τ) : Option Post → System τ
  | none => s
  | some p => { s with
      conns := Function.update s.conns s.fresh (some (.sent p)), fresh := s.fresh + 1 }

/-- One step. -/
def next (setup : Setup τ) (s : System τ) : Action τ → Option (System τ)
  | .createJob job input =>
      if job.status = .queued then some (s.client (.createJob job) input) else none
  | .attachManifest id m input => some (s.client (.attachManifest id m) input)
  | .deliver n =>
      match s.conns n with
      | some (.sent p) =>
          some { s with
            conns := Function.update s.conns n (some (.serving (p.handle setup.env setup.ns))) }
      | _ => none
  | .serve n input =>
      match s.conns n with
      | some (.serving (.call c k)) =>
          let answer := Control.effect c input s.world
          some { s with
            world := answer.2
            conns := Function.update s.conns n (some (.serving (k answer.1))) }
      | _ => none
  | .lose n =>
      match s.conns n with
      | some (.sent _) | some (.serving (.done _)) =>
          some { s with conns := Function.update s.conns n none }
      | _ => none
  | .requeue input =>
      match s.requeuer with
      | .done _ => some { s with requeuer := requeueTick }
      | .call c k =>
          let answer := Control.effect c input s.world
          some { s with world := answer.2, requeuer := k answer.1 }
  | .move i m =>
      ((setup.candidate i).move s.reply s.fresh (s.locals i) m).map fun answer =>
        { s with locals := Function.update s.locals i answer.1 }.post answer.2

/-- Take a list of steps, if each of them is possible and allowed. -/
def play (setup : Setup τ) (allowed : System τ → Action τ → Bool) :
    List (Action τ) → System τ → Option (System τ)
  | [], s => some s
  | a :: rest, s => if allowed s a then (s.next setup a).bind (play setup allowed rest) else none

/-- A list of possible steps is an execution of the system. -/
theorem play_execution {setup : Setup τ} {allowed : System τ → Action τ → Bool}
    {actions : List (Action τ)} {s s' : System τ} (h : play setup allowed actions s = some s') :
    Execution (fun s a s' => next setup s a = some s' ∧ allowed s a) s actions s' := by
  induction actions generalizing s with
  | nil =>
      cases h
      exact .refl
  | cons a rest ih =>
      rw [play] at h
      split at h
      next ha =>
          obtain ⟨middle, hfirst, hrest⟩ := Option.bind_eq_some_iff.mp h
          exact (Execution.single ⟨hfirst, ha⟩).trans (ih hrest)
      next => cases h

variable {setup : Setup τ} {s s' : System τ} {a : Action τ} {history : List (Action τ)}

omit [DecidableEq τ] in
/-- Posting a request changes nobody's state. -/
@[simp] theorem post_locals (s : System τ) (p : Option Post) : (s.post p).locals = s.locals := by
  cases p <;> rfl

omit [DecidableEq τ] in
@[simp] theorem post_world (s : System τ) (p : Option Post) : (s.post p).world = s.world := by
  cases p <;> rfl

/-- A step moves one call of `onCandidate`, or none. -/
theorem next_locals (h : s.next setup a = some s') :
    s'.locals = s.locals ∨
    ∃ i m l p, a = .move i m ∧
      (setup.candidate i).move s.reply s.fresh (s.locals i) m = some (l, p) ∧
      s'.locals = Function.update s.locals i l := by
  cases a with
  | createJob job input =>
      simp only [next] at h
      split at h
      · cases h
        exact .inl rfl
      · cases h
  | attachManifest =>
      cases h
      exact .inl rfl
  | deliver n | serve n input | lose n =>
      simp only [next] at h
      split at h <;> cases h <;> exact .inl rfl
  | requeue input =>
      simp only [next] at h
      split at h <;> cases h <;> exact .inl rfl
  | move i m =>
      obtain ⟨⟨l, p⟩, hmove, heq⟩ := Option.map_eq_some_iff.mp h
      cases heq
      exact .inr ⟨i, m, l, p, rfl, hmove, by simp⟩

/-- A step acts on the database by one statement, or not at all. -/
theorem next_db (h : s.next setup a = some s') :
    s'.world.db = s.world.db ∨ ∃ e, Store.Step s.world.db e s'.world.db := by
  cases a with
  | createJob job input =>
      simp only [next] at h
      split at h
      · cases h
        exact .inr ⟨_, effect_step (.createJob job) input s.world.db⟩
      · cases h
  | attachManifest id m input =>
      cases h
      exact .inr ⟨_, effect_step (.attachManifest id m) input s.world.db⟩
  | deliver n | lose n =>
      simp only [next] at h
      split at h <;> cases h <;> exact .inl rfl
  | serve n input =>
      simp only [next] at h
      split at h
      · cases h
        exact effect_db _ _ _
      · cases h
  | requeue input =>
      simp only [next] at h
      split at h
      · cases h
        exact .inl rfl
      · cases h
        exact effect_db _ _ _
  | move i m =>
      obtain ⟨⟨l, p⟩, -, heq⟩ := Option.map_eq_some_iff.mp h
      cases heq
      exact .inl (by simp)

/-- The database of the system is the store: what holds of every run of the store holds here. -/
theorem store_reachable (h : Execution (fun s a s' => next setup s a = some s') initial history s) :
    Reachable s.world.db :=
  h.invariant (I := fun s => Reachable s.world.db) ⟨[], .refl⟩
    fun _ _ _ hreach hstep => hreach.of_step (next_db hstep)

/-- No heartbeat loop sees its last tolerated failure while its job context is not cancelled. -/
def beatsInTime (s : System τ) : Action τ → Bool
  | .move i m => !thirdFailure s.reply (s.locals i) m
  | .createJob _ _ | .attachManifest _ _ _ | .deliver _ | .serve _ _ | .lose _ | .requeue _ => true

/-- The execution is inside its container run. -/
def Executing (s : System τ) (i : τ) : Prop :=
  (s.locals i).stage = .running

/-- The invariant of every call survives a step that is no third failure. -/
theorem ok_step (h : s.next setup a = some s') (hbeats : s.beatsInTime a)
    (hs : ∀ i, (s.locals i).Ok) : ∀ i, (s'.locals i).Ok := by
  intro j
  rcases next_locals h with hsame | ⟨i, m, l, p, ha, hmove, hlocals⟩
  · rw [hsame]
    exact hs j
  · rw [hlocals]
    by_cases hj : j = i
    · subst hj
      rw [Function.update_self]
      refine Candidate.move_ok hmove (hs j) ?_
      simpa [ha, beatsInTime] using hbeats
    · rw [Function.update_of_ne hj]
      exact hs j

end System

namespace Sample

/-- Two agents, and a control server that does not ask for a token. -/
def setup : Setup Bool where
  env := ⟨"1", ""⟩
  ns := "mc"
  candidate
    | true => ⟨"a", "job", 15, ""⟩
    | false => ⟨"b", "job", 15, ""⟩

/-- One agent claims the job by the request `n` and goes on to its container run. -/
def claimAndRun (i : Bool) (n : ℕ) (now : Time) : List (Action Bool) :=
  [.move i .tryClaim, .deliver n] ++ List.replicate 5 (.serve n { now := now }) ++
    [.move i .claimReply, .move i .manifestWaited] ++ List.replicate 3 (.move i (.prepared true))

/-- Three heartbeats in a row are lost. -/
def loseBeats (i : Bool) : List (Action Bool) :=
  (List.replicate 3 [.move i .beat, .move i .beatError]).flatten

end Sample

end MutualCloud.Agent
