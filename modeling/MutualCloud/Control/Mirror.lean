import MutualCloud.Control.Handlers
import MutualCloud.Store.Runs

/-!
# The DHT mirror of a job and the steps of its handlers

When the mirror of a job agrees with its row (`MirrorAgrees`), what one execution of one of the
four handlers does (`Exec.code_mirrors`), and what one step of it does to the row (`fit_step`) and
to the two records of the mirror (`state_step`, `lease_step`). Rows and records are compared by
their `Target`: what an execution makes of the job.
-/

namespace MutualCloud.Control

open Go KeyedTable Interaction Labelled Store

/-! ## What a job looks like -/

/-- What a handler makes of a job. -/
inductive Target where
  | queued
  | assigned (agentID : String)
  | ended (status : JobStatus)
  deriving DecidableEq

namespace Target

/-- The owner in the lease record of a job. -/
def owner : Target → String
  | queued | ended _ => ""
  | assigned agentID => agentID

/-- Only the two statuses of `Finish` end a job. -/
def Proper : Target → Prop
  | queued | assigned _ => True
  | ended status => status.Terminal

/-- The state record shows the job like this. -/
def Describes (st : TaskState) : Target → Prop
  | queued => st.status = .queued
  | assigned agentID => st.status = .assigned ∧ st.assignedTo = agentID
  | ended status => st.status = status

/-- A state record shows one thing. -/
theorem describes_unique {st : TaskState} {t t' : Target} (h : t.Describes st)
    (h' : t'.Describes st) (hp : t.Proper) (hp' : t'.Proper) : t = t' := by
  cases t <;> cases t' <;> grind [Describes, Proper, JobStatus.Terminal]

end Target

/-- What a row says of its job. -/
def targetOf (row : Row) : Target :=
  match row.leaseAgent with
  | some agentID => .assigned agentID
  | none => if row.status = .queued then .queued else .ended row.status

/-- The state record of a job, where a missing one reads as the zero value. -/
def stateRecord (id : String) (w : World) : TaskState :=
  (w.dht (.state id)).getD default

/-- The lease record of a job, where a missing one reads as the zero value. -/
def leaseRecord (id : String) (w : World) : TaskLease :=
  (w.dht (.lease id)).getD default

/-- The mirror of a job agrees with its row. -/
structure MirrorAgrees (id : String) (w : World) (row : Row) : Prop where
  queued : row.status = .queued → (stateRecord id w).status = .queued
  active : row.status.Active →
    (stateRecord id w).status = .assigned ∧ some (stateRecord id w).assignedTo = row.leaseAgent
  terminal : row.status.Terminal → (stateRecord id w).status = row.status
  owned : (leaseRecord id w).owner ≠ "" ↔ row.leaseAgent ≠ none
  owner : ∀ agentID, row.leaseAgent = some agentID → (leaseRecord id w).owner = agentID

/-- The row of the job is well formed, and not leased to the empty agent. -/
structure RowFit (id : String) (w : World) (row : Row) : Prop where
  lookup : w.db.lookup id = some row
  formed : row.WellFormed
  named : row.leaseAgent ≠ some ""

/-- A well-formed row is queued, or active with an agent, or terminal without one. -/
theorem row_cases {row : Row} (h : row.WellFormed) :
    (row.status = .queued ∧ row.leaseAgent = none) ∨
    (∃ agentID, row.status.Active ∧ row.leaseAgent = some agentID) ∨
    (row.status.Terminal ∧ row.leaseAgent = none) := by
  by_cases hactive : row.status.Active
  · obtain ⟨agentID, hagent⟩ := Option.ne_none_iff_exists'.mp (h.leased hactive)
    exact .inr (.inl ⟨agentID, hactive, hagent⟩)
  · have hnone := h.agent_none_of_not_active hactive
    cases hs : row.status with
    | queued => exact .inl ⟨rfl, hnone⟩
    | succeeded => exact .inr (.inr ⟨.inl rfl, hnone⟩)
    | failed => exact .inr (.inr ⟨.inr rfl, hnone⟩)
    | assigned => exact absurd (.inl hs) hactive
    | running => exact absurd (.inr hs) hactive
    | other text => exact absurd hs (h.known text)

theorem target_proper {row : Row} (h : row.WellFormed) : (targetOf row).Proper := by
  rcases row_cases h with ⟨hs, ha⟩ | ⟨agentID, -, ha⟩ | ⟨hs, ha⟩
  · simp [targetOf, ha, hs, Target.Proper]
  · simp [targetOf, ha, Target.Proper]
  · have ht : targetOf row = .ended row.status := by simp [targetOf, ha, hs.ne_queued]
    rw [ht]
    exact hs

/-- Agreement in terms of what the row says of its job. -/
theorem mirror_agrees_target {id : String} {w : World} {row : Row} (h : row.WellFormed)
    (hnamed : row.leaseAgent ≠ some "") :
    MirrorAgrees id w row ↔
      (targetOf row).Describes (stateRecord id w) ∧
        (leaseRecord id w).owner = (targetOf row).owner := by
  rcases row_cases h with ⟨hs, ha⟩ | ⟨agentID, hactive, ha⟩ | ⟨hterminal, ha⟩
  · have ht : targetOf row = .queued := by simp [targetOf, ha, hs]
    rw [ht]
    refine ⟨fun hm => ⟨hm.queued hs, by simpa [ha, Target.owner] using hm.owned⟩, ?_⟩
    rintro ⟨hst, hlease⟩
    have hlease : (leaseRecord id w).owner = "" := hlease
    exact ⟨fun _ => hst, by simp [hs, JobStatus.Active], by simp [hs, JobStatus.Terminal],
      by simp [ha, hlease], by simp [ha]⟩
  · have ht : targetOf row = .assigned agentID := by simp [targetOf, ha]
    have hne : agentID ≠ "" := fun hempty => hnamed (hempty ▸ ha)
    have hq : row.status ≠ .queued := hactive.ne_queued
    have hterminal : ¬ row.status.Terminal := hactive.not_terminal
    rw [ht]
    refine ⟨fun hm => ⟨⟨(hm.active hactive).1, ?_⟩, hm.owner agentID ha⟩, ?_⟩
    · exact Option.some.inj ((hm.active hactive).2.trans ha)
    · rintro ⟨⟨hst, hassigned⟩, hlease⟩
      have hlease : (leaseRecord id w).owner = agentID := hlease
      exact ⟨fun h => absurd h hq, fun _ => ⟨hst, by rw [hassigned, ha]⟩,
        fun h => absurd h hterminal, by simp [ha, hlease, hne], by simp [ha, hlease]⟩
  · have hq : row.status ≠ .queued := hterminal.ne_queued
    have hactive : ¬ row.status.Active := hterminal.not_active
    have ht : targetOf row = .ended row.status := by simp [targetOf, ha, hq]
    rw [ht]
    refine ⟨fun hm => ⟨hm.terminal hterminal, by simpa [ha, Target.owner] using hm.owned⟩, ?_⟩
    rintro ⟨hst, hlease⟩
    have hlease : (leaseRecord id w).owner = "" := hlease
    exact ⟨fun h => absurd h hq, fun h => absurd h hactive, fun _ => hst,
      by simp [ha, hlease], by simp [ha]⟩

/-! ## Executions of the handlers -/

/-- One execution of a handler on the job, after the checks of its request. The check of
`tryClaimHandler` is the only one that keeps the empty agent out. -/
inductive Exec where
  | claim (agentID : String) (ttl : Duration) (named : agentID ≠ "")
  | heartbeat (agentID : String) (token : UInt64) (ttl : Duration)
  | finish (ns agentID : String) (token : UInt64) (outcome : Outcome)
  | requeue (now : Time)

namespace Exec

/-- The code of an execution. -/
def code (id : String) : Exec → Code Unit
  | claim agentID ttl _ => do
      let _ ← claimJob ⟨id, agentID, ttl⟩
  | heartbeat agentID token ttl => do
      let _ ← heartbeatJob ⟨id, agentID, token, ttl⟩
  | finish ns agentID token outcome => do
      let _ ← finishJob ns ⟨id, agentID, token, outcome⟩
  | requeue now => requeueJob id now

/-- The statement of an execution that takes effect. -/
def stmt (id : String) : Exec → Stmt
  | claim agentID ttl _ => .tryClaim id agentID ttl
  | heartbeat agentID token ttl => .heartbeat id agentID token ttl
  | finish _ agentID token outcome => .finish id agentID token outcome
  | requeue _ => .setStatusQueued id

/-- What an execution makes of the job. A heartbeat leaves it as it is. -/
def target : Exec → Option Target
  | claim agentID _ _ => some (.assigned agentID)
  | heartbeat _ _ _ => none
  | finish _ _ _ outcome => some (.ended outcome.status)
  | requeue _ => some .queued

/-- The owner that an execution writes to the lease record. -/
def owner : Exec → String
  | claim agentID _ _ | heartbeat agentID _ _ => agentID
  | finish _ _ _ _ | requeue _ => ""

theorem owner_of_target {x : Exec} {t : Target} (h : x.target = some t) : x.owner = t.owner := by
  cases x <;> cases h <;> rfl

theorem target_proper {x : Exec} {t : Target} (h : x.target = some t) : t.Proper := by
  cases x with
  | finish _ _ _ outcome =>
      cases h
      exact outcome.status_terminal
  | claim | requeue =>
      cases h
      trivial
  | heartbeat => cases h

/-- The steps an execution can take while its statement takes effect: its own statement, a state
record that shows its target, and a lease record with its owner. -/
def Makes (id : String) (x : Exec) : Call → Prop
  | .sql s => s = x.stmt id
  | .putJSON (.state k) st => k = id ∧ ∃ t, x.target = some t ∧ t.Describes st
  | .putJSON (.lease k) lease => k = id ∧ TaskLease.owner lease = x.owner
  | .delJSON (.state _) => False
  | .delJSON (.lease k) => k = id ∧ x.owner = ""
  | .putJSON (.taskAd _ _) _ | .putJSON (.manifestMirror _) _ => True
  | .delJSON (.taskAd _ _) | .delJSON (.manifestMirror _) => True
  | .getJSON _ | .timeNow | .enqueue _ => True

end Exec

/-- A statement took effect: it wrote a row. Every other step always does. -/
def TookEffect : (c : Call) → c.Response → Prop
  | .sql s, response => ∃ rows, response = .ok rows ∧ s.wrote rows
  | .getJSON _, _ | .putJSON _ _, _ | .delJSON _, _ | .timeNow, _ | .enqueue _, _ => True

instance : (c : Call) → (r : c.Response) → Decidable (TookEffect c r)
  | .sql s, .ok rows =>
      decidable_of_iff (s.wrote rows)
        ⟨fun h => ⟨rows, rfl, h⟩, fun ⟨_, heq, h⟩ => (Except.ok.inj heq).symm ▸ h⟩
  | .sql _, .error _ => isFalse fun ⟨_, heq, _⟩ => nomatch heq
  | .getJSON _, _ | .putJSON _ _, _ | .delJSON _, _ | .timeNow, _ | .enqueue _, _ => isTrue trivial

/-- Whether the step writes the record under the key. -/
def Call.writes (k : DhtKey) : Call → Bool
  | .putJSON k' _ | .delJSON k' => k' = k
  | .sql _ | .getJSON _ | .timeNow | .enqueue _ => false

/-- Whether the step is a statement. -/
def Call.isSql : Call → Bool
  | .sql _ => true
  | .getJSON _ | .putJSON _ _ | .delJSON _ | .timeNow | .enqueue _ => false

/-- What an execution does after its statement took effect: it takes the steps of its handler, and
cannot end before it has written the records that it has to write. -/
structure Exec.Mirrors (id : String) (x : Exec) (rest : Code Unit) : Prop where
  makes : rest.Always TookEffect (x.Makes id)
  state : x.target ≠ none → rest.Inevitably TookEffect fun c => c.writes (.state id)
  lease : rest.Inevitably TookEffect fun c => c.writes (.lease id)

/-- An execution starts with its statement, and mirrors it once it took effect. -/
theorem Exec.code_mirrors (id : String) (x : Exec) :
    ∃ k, x.code id = .call (.sql (x.stmt id)) k ∧
      ∀ r, TookEffect (.sql (x.stmt id)) r → x.Mirrors id (k r) := by
  cases x with
  | claim agentID ttl named =>
      refine ⟨_, rfl, ?_⟩
      rintro r ⟨rows, rfl, hwrote⟩
      obtain ⟨⟨token, expiry⟩, rfl⟩ := Option.ne_none_iff_exists'.mp hwrote
      show Exec.Mirrors id _
        (assignJob ⟨id, agentID, ttl⟩ (some ⟨agentID, expiry, uint64 token⟩) >>= fun _ => pure ())
      constructor <;> simp [assignJob, mirrorAssigned, timeNow, getJSON, putJSON, Prog.perform,
        Prog.Always, Prog.Inevitably, Makes, target, Target.Describes, owner, Call.writes]
  | heartbeat agentID token ttl =>
      refine ⟨_, rfl, ?_⟩
      rintro r ⟨n, rfl, hn⟩
      obtain ⟨m, rfl⟩ := Nat.exists_eq_succ_of_ne_zero hn
      show Exec.Mirrors id _ (mirrorHeartbeat ⟨id, agentID, token, ttl⟩ >>= fun _ => pure ())
      constructor <;> simp [mirrorHeartbeat, timeNow, getJSON, putJSON, Prog.perform,
        Prog.Always, Prog.Inevitably, Makes, target, owner, Call.writes]
  | finish ns agentID token outcome =>
      refine ⟨_, rfl, ?_⟩
      rintro r ⟨n, rfl, hn⟩
      show Exec.Mirrors id _ (mirrorFinish ns id outcome >>= fun _ => pure ())
      constructor <;> simp [mirrorFinish, timeNow, getJSON, putJSON, delJSON, Prog.perform,
        Prog.Always, Prog.Inevitably, Makes, target, Target.Describes, owner, Call.writes]
  | requeue now =>
      refine ⟨_, rfl, ?_⟩
      rintro r ⟨n, rfl, hn⟩
      obtain ⟨m, rfl⟩ := Nat.exists_eq_succ_of_ne_zero hn
      show Exec.Mirrors id _
        (delJSON (.lease id) >>= fun _ => updateDHTStateQueued id now >>= fun _ => enqueue id)
      constructor <;> simp [updateDHTStateQueued, getJSON, putJSON, delJSON, enqueue, Prog.perform,
        Prog.Always, Prog.Inevitably, Makes, target, Target.Describes, owner, Call.writes]

/-! ## Steps of an interleaving -/

/-- A label of an interleaving: the execution that took the step, and the step. -/
abbrev Label (τ : Type) := τ × Interaction.Event Call Call.Response Input

/-- A step that its execution makes, whose statement took effect, on a DHT that does not fail. -/
structure Effective {τ : Type} (id : String) (x : τ → Exec) (l : Label τ) : Prop where
  makes : (x l.1).Makes id l.2.call
  took : TookEffect l.2.call l.2.response
  reliable : l.2.input.dhtFault = false

/-- The label is a statement that makes something else of the job. -/
def moves {τ : Type} (x : τ → Exec) (l : Label τ) : Bool :=
  l.2.call.isSql && (x l.1).target.isSome

/-- What the row of the job says. -/
def rowTarget (id : String) (w : World) : Option Target :=
  (w.db.lookup id).map targetOf

variable {τ : Type} {id : String} {x : τ → Exec} {w w' : World} {l : Label τ}

/-- A statement of an execution that took effect, on the row of the job. -/
theorem Exec.row_effect {x : Exec} {e : Store.Event} {db db' : DemandJobs} {row : Row}
    (hcall : e.call = x.stmt id) (hwrites : Store.Event.Writes e id) (hstep : Store.Step db e db')
    (hrow : db.lookup id = some row) (hformed : row.WellFormed)
    (hnamed : row.leaseAgent ≠ some "") :
    ∃ row', db'.lookup id = some row' ∧ row'.WellFormed ∧ row'.leaseAgent ≠ some "" ∧
      targetOf row' = x.target.getD (targetOf row) ∧
      (x.target = none → targetOf row = .assigned x.owner) := by
  have hrs := row_step hstep id
  rw [hrow] at hrs
  generalize hnew : db'.lookup id = new at hrs
  have hwf : ∀ row', new = some row' → row'.WellFormed := by
    refine hrs.well_formed ?_ ?_
    · intro job hjob
      rw [hcall] at hjob
      cases x <;> cases hjob
    · rintro _ ⟨⟩
      exact hformed
  -- every step on the row but the execution's own has another statement
  cases hrs with
  | idle _ _ hidle => exact absurd hwrites hidle
  | attach => cases x <;> cases hcall
  | claim agentID ttl =>
      cases x with
      | claim a t named =>
          cases hcall
          exact ⟨_, rfl, hwf _ rfl, by simpa using named, rfl, by simp [Exec.target]⟩
      | heartbeat | finish | requeue => cases hcall
  | renew agentID token ttl input _ hheld =>
      cases x with
      | heartbeat a u t =>
          cases hcall
          have htarget : targetOf row = .assigned agentID := by simp [targetOf, hheld.1]
          exact ⟨_, rfl, hwf _ rfl, hnamed, by simp [targetOf, Row.renew, hheld.1, Exec.target],
            fun _ => htarget⟩
      | claim | finish | requeue => cases hcall
  | finish agentID token outcome =>
      cases x with
      | finish ns a u o =>
          cases hcall
          refine ⟨_, rfl, hwf _ rfl, by simp [Row.finish], ?_, by simp [Exec.target]⟩
          show (if outcome.status = .queued then Target.queued else .ended outcome.status) =
            .ended outcome.status
          exact if_neg outcome.status_terminal.ne_queued
      | claim | heartbeat | requeue => cases hcall
  | requeue =>
      cases x with
      | requeue now => exact ⟨_, rfl, hwf _ rfl, by simp, rfl, by simp [Exec.target]⟩
      | claim | heartbeat | finish => cases hcall

/-- Some row of the job is fit. -/
def Fit (id : String) (w : World) : Prop :=
  ∃ row, RowFit id w row

/-- One step of an interleaving keeps the row fit, and changes what it says only by a move. -/
theorem fit_step (hl : Effective id x l) (h : Answers effect w l.2 w') (hfit : Fit id w) :
    Fit id w' ∧
    (moves x l → rowTarget id w' = (x l.1).target) ∧
    (¬ moves x l → rowTarget id w' = rowTarget id w) ∧
    (l.2.call.isSql → (x l.1).target = none → rowTarget id w = some (.assigned (x l.1).owner)) := by
  obtain ⟨row, hrow, hformed, hnamed⟩ := hfit
  obtain ⟨i, call, input, response⟩ := l
  obtain ⟨hmakes, htook, -⟩ := hl
  cases call with
  | sql s =>
      obtain rfl : s = (x i).stmt id := hmakes
      simp only [Answers, effect, Prod.mk.injEq] at h
      obtain ⟨rfl, rfl⟩ := h
      have hstep : Store.Step w.db ⟨(x i).stmt id, input.toInput,
          (Store.effect ((x i).stmt id) input.toInput w.db).1⟩
          (Store.effect ((x i).stmt id) input.toInput w.db).2 := rfl
      have hwrites : Store.Event.Writes ⟨(x i).stmt id, input.toInput,
          (Store.effect ((x i).stmt id) input.toInput w.db).1⟩ id := by
        refine ⟨?_, htook⟩
        cases x i <;> rfl
      obtain ⟨row', hrow', hformed', hnamed', htarget, hkept⟩ :=
        Exec.row_effect rfl hwrites hstep hrow hformed hnamed
      refine ⟨⟨row', hrow', hformed', hnamed'⟩, ?_, ?_, ?_⟩
      · intro hmoves
        simp only [moves, Call.isSql, Bool.true_and] at hmoves
        obtain ⟨t, ht⟩ := Option.isSome_iff_exists.mp hmoves
        simp [rowTarget, hrow', htarget, ht]
      · intro hmoves
        simp only [moves, Call.isSql, Bool.true_and, Bool.not_eq_true, Option.isSome_eq_false_iff,
          Option.isNone_iff_eq_none] at hmoves
        simp [rowTarget, hrow', hrow, htarget, hmoves]
      · intro _ hnone
        simp [rowTarget, hrow, hkept hnone]
  | getJSON | timeNow | enqueue =>
      simp only [Answers, effect, Prod.mk.injEq] at h
      obtain ⟨-, rfl⟩ := h
      exact ⟨⟨row, hrow, hformed, hnamed⟩, by simp [moves, Call.isSql], fun _ => rfl,
        by simp [Call.isSql]⟩
  | putJSON | delJSON =>
      simp only [Answers, effect, Prod.mk.injEq] at h
      obtain ⟨-, rfl⟩ := h
      have hdb : ∀ dht, (if input.dhtFault = true then w else { w with dht := dht }).db = w.db := by
        intro dht
        split <;> rfl
      refine ⟨⟨row, by rw [hdb]; exact hrow, hformed, hnamed⟩, by simp [moves, Call.isSql], ?_,
        by simp [Call.isSql]⟩
      intro _
      simp only [rowTarget, hdb]

/-- The state record that a step writes. -/
def Call.writtenState : Call → TaskState
  | .putJSON (.state _) st => st
  | _ => default

/-- A step leaves alone every record that it does not write. -/
theorem dht_step_of_not_writes {e : Interaction.Event Call Call.Response Input} {k : DhtKey}
    (h : Answers effect w e w') (hw : ¬ e.call.writes k) : w'.dht k = w.dht k := by
  obtain ⟨call, input, response⟩ := e
  cases call with
  | sql | getJSON | timeNow | enqueue =>
      simp only [Answers, effect, Prod.mk.injEq] at h
      obtain ⟨-, rfl⟩ := h
      rfl
  | putJSON k' | delJSON k' =>
      simp only [Answers, effect, Prod.mk.injEq] at h
      obtain ⟨-, rfl⟩ := h
      have hne : k ≠ k' := by
        rintro rfl
        simp [Call.writes] at hw
      split
      · rfl
      · exact Function.update_of_ne hne _ _

/-- A step that writes a record on a reliable DHT leaves it there. -/
theorem dht_step_of_writes {input : Input} {k : DhtKey} {v : k.Value} {response : Unit}
    (h : Answers effect w ⟨.putJSON k v, input, response⟩ w') (hreliable : input.dhtFault = false) :
    w'.dht k = some v := by
  simp only [Answers, effect, hreliable, Prod.mk.injEq] at h
  rw [← h.2]
  exact Function.update_self _ _ _

/-- A step that writes the state record of the job, and what it writes. -/
theorem state_step (hl : Effective id x l) (h : Answers effect w l.2 w') :
    (l.2.call.writes (.state id) → stateRecord id w' = l.2.call.writtenState) ∧
    (¬ l.2.call.writes (.state id) → stateRecord id w' = stateRecord id w) := by
  refine ⟨?_, fun hw => by simp only [stateRecord, dht_step_of_not_writes h hw]⟩
  intro hw
  obtain ⟨i, call, input, response⟩ := l
  cases call with
  | putJSON k v =>
      obtain rfl : k = .state id := by simpa [Call.writes] using hw
      simp only [stateRecord, dht_step_of_writes h hl.reliable]
      rfl
  | delJSON k =>
      obtain rfl : k = .state id := by simpa [Call.writes] using hw
      exact hl.makes.elim
  | sql | getJSON | timeNow | enqueue => cases hw

/-- A state record written for the job shows the target of the execution that wrote it. -/
theorem describes_of_writes (hl : Effective id x l) (hw : l.2.call.writes (.state id)) :
    ∃ t, (x l.1).target = some t ∧ t.Describes l.2.call.writtenState := by
  obtain ⟨i, call, input, response⟩ := l
  have hmakes := hl.makes
  cases call with
  | putJSON k v =>
      obtain rfl : k = .state id := by simpa [Call.writes] using hw
      exact hmakes.2
  | delJSON k =>
      obtain rfl : k = .state id := by simpa [Call.writes] using hw
      exact hmakes.elim
  | sql | getJSON | timeNow | enqueue => cases hw

/-- A step that writes the lease record of the job leaves the owner of its execution in it. -/
theorem lease_step (hl : Effective id x l) (h : Answers effect w l.2 w') :
    (l.2.call.writes (.lease id) → (leaseRecord id w').owner = (x l.1).owner) ∧
    (¬ l.2.call.writes (.lease id) → (leaseRecord id w').owner = (leaseRecord id w).owner) := by
  refine ⟨?_, fun hw => by simp only [leaseRecord, dht_step_of_not_writes h hw]⟩
  intro hw
  obtain ⟨i, call, input, response⟩ := l
  have hmakes := hl.makes
  cases call with
  | putJSON k v =>
      obtain rfl : k = .lease id := by simpa [Call.writes] using hw
      simp only [leaseRecord, dht_step_of_writes h hl.reliable]
      exact hmakes.2
  | delJSON k =>
      obtain rfl : k = .lease id := by simpa [Call.writes] using hw
      have hput : Answers effect w ⟨.putJSON (.lease id) default, input, ()⟩ w' := h
      simp only [leaseRecord, dht_step_of_writes hput hl.reliable]
      exact hmakes.2.symm
  | sql | getJSON | timeNow | enqueue => cases hw

end MutualCloud.Control
