import MutualCloud.Library.FencedLease
import MutualCloud.Store.Runs

/-!
# The store implements fenced leases

Seen from one job, every statement is a step of the protocol in `Library.FencedLease` or has no
effect on who owns the job: `Run.ownership` turns a run of the store into an execution of the
protocol. A row with an agent is held; a row without one is free when it is queued and closed
otherwise. What the protocol says about tokens and closes is then true of every run of the
store.
-/

namespace MutualCloud.Store

open Go KeyedTable Interaction Labelled

/-- The protocol step of a statement on job `id` with its response. -/
def Stmt.ownership (id : String) : (s : Stmt) → s.Rows → Option (FencedLease.Event String)
  | createJob job, n =>
      if job.id = id ∧ n ≠ (0 : ℕ) then some (.create (decide (job.status = .queued))) else none
  | tryClaim k agentID _, returned =>
      if k = id then returned.map fun columns => .claim agentID (uint64 columns.1).toNat else none
  | heartbeat k agentID token _, n =>
      if k = id ∧ n ≠ (0 : ℕ) then some (.renew agentID token.toNat) else none
  | finish k agentID token _, n =>
      if k = id ∧ n ≠ (0 : ℕ) then some (.close agentID token.toNat) else none
  | setStatusQueued k, n => if k = id ∧ n ≠ (0 : ℕ) then some .expire else none
  | getJob _, _ | attachManifest _ _, _ | claimRefusal _, _ | listExpiredLeases, _ => none

/-- The protocol step of an event on job `id`. -/
def Event.ownership (id : String) (e : Event) : Option (FencedLease.Event String) :=
  match e.response with
  | .ok rows => e.call.ownership id rows
  | .error _ => none

/-- Who owns a job, by its row. -/
def Row.phase (row : Row) : FencedLease.Phase String :=
  match row.leaseAgent with
  | some agentID => .held agentID
  | none => if row.status = .queued then .free else .closed

/-- The protocol state of a job. -/
def ownership : Option Row → FencedLease.State String
  | none => .initial
  | some row => ⟨row.phase, row.leaseToken.toNat, row.retryCount.toNat⟩

/-- A statement that does not write the row of job `id` is no step of its protocol. -/
theorem ownership_eq_none {id : String} {e : Event} (h : ¬ Event.Writes e id) :
    e.ownership id = none := by
  obtain ⟨call, input, response⟩ := e
  cases response with
  | error => rfl
  | ok rows =>
      have hne : call.target = some id → ¬ call.wrote rows :=
        fun htarget hwrote => h ⟨htarget, rows, rfl, hwrote⟩
      cases call with
      | tryClaim k =>
          by_cases hk : k = id
          · have hnone : rows = none := by
              by_contra hrows
              exact hne (by simp [Stmt.target, hk]) hrows
            simp [Event.ownership, Stmt.ownership, hnone]
          · simp [Event.ownership, Stmt.ownership, hk]
      | createJob | heartbeat | finish | setStatusQueued =>
          simp only [Event.ownership, Stmt.ownership, ite_eq_right_iff, reduceCtorEq, imp_false]
          rintro ⟨rfl, hn⟩
          exact hne rfl hn
      | getJob | attachManifest | claimRefusal | listExpiredLeases => rfl

/-- One step on a row is one step of the protocol, or leaves the owner alone. -/
theorem RowStep.simulates {id : String} {e : Event} {old new : Option Row}
    (h : RowStep id e old new) (hs : ∀ row, old = some row → row.Sound) :
    (∀ l, e.ownership id = some l →
      FencedLease.Step (Store.ownership old) l (Store.ownership new)) ∧
    (e.ownership id = none → Store.ownership new = Store.ownership old) := by
  cases h with
  | idle _ _ hidle => simp [ownership_eq_none hidle]
  | create job input hid =>
      refine ⟨?_, by simp [Event.ownership, Stmt.ownership, hid]⟩
      intro l hl
      obtain rfl : FencedLease.Event.create (decide (job.status = .queued)) = l := by
        simpa [Event.ownership, Stmt.ownership, hid] using hl
      have hnew : Store.ownership (some (Row.fresh job)) =
          ⟨if decide (job.status = .queued) then .free else .closed, 0, 0⟩ := by
        by_cases hq : job.status = .queued <;> simp [Store.ownership, Row.phase, Row.fresh, hq]
      rw [hnew]
      exact .create _
  | attach m input row =>
      exact ⟨by simp [Event.ownership, Stmt.ownership], fun _ => rfl⟩
  | claim agentID ttl input row hguard hlt =>
      refine ⟨?_, by simp [Event.ownership, Stmt.ownership]⟩
      intro l hl
      -- a claimable row is queued and has no agent, so the resource is free
      have hsound := hs row rfl
      have hnonneg := hsound.token_nonneg
      have htoken : (uint64 (row.leaseToken + 1)).toNat = row.leaseToken.toNat + 1 := by
        rw [toNat_uint64 (by omega) hlt]
        omega
      obtain rfl : FencedLease.Event.claim agentID (row.leaseToken.toNat + 1) = l := by
        simpa [Event.ownership, Stmt.ownership, htoken] using hl
      have hold : Store.ownership (some row) =
          ⟨.free, row.leaseToken.toNat, row.retryCount.toNat⟩ := by
        simp [Store.ownership, Row.phase, hsound.agent_none_of_claimable hguard, hguard.1]
      have hnat : (row.leaseToken + 1).toNat = row.leaseToken.toNat + 1 := by omega
      rw [hold]
      simp only [Store.ownership, Row.phase, hnat]
      exact .claim agentID _ _
  | renew agentID token ttl input row hheld =>
      refine ⟨?_, by simp [Event.ownership, Stmt.ownership]⟩
      intro l hl
      have hsmall := (toNat_of_le_int64 (hs row rfl).token_nonneg hheld.2.le).1
      have htoken : token.toNat = row.leaseToken.toNat := by
        rw [hheld.2, int64_of_lt hsmall]
        omega
      obtain rfl : FencedLease.Event.renew agentID row.leaseToken.toNat = l := by
        simpa [Event.ownership, Stmt.ownership, htoken] using hl
      simp only [Store.ownership, Row.phase, Row.renew, hheld.1]
      exact .renew agentID _ _
  | finish agentID token outcome input row hguard =>
      refine ⟨?_, by simp [Event.ownership, Stmt.ownership]⟩
      intro l hl
      have hle := (toNat_of_le_int64 (hs row rfl).token_nonneg hguard.2).2
      obtain rfl : FencedLease.Event.close agentID token.toNat = l := by
        simpa [Event.ownership, Stmt.ownership] using hl
      have hphase : (row.finish outcome).phase = .closed :=
        if_neg outcome.status_terminal.ne_queued
      simp only [Store.ownership, hphase]
      refine .close _ agentID _ _ _ ?_ (by omega)
      -- a row without an agent lets everybody finish, whether it is queued or has ended
      rcases hguard.1 with hagent | hagent
      · exact .inl (by simp [Row.phase, hagent])
      · by_cases hq : row.status = .queued
        · exact .inr (.inl (by simp [Row.phase, hagent, hq]))
        · exact .inr (.inr (by simp [Row.phase, hagent, hq]))
  | requeue input row hguard hlt =>
      refine ⟨?_, by simp [Event.ownership, Stmt.ownership]⟩
      intro l hl
      have hsound := hs row rfl
      have hnonneg := hsound.retries_nonneg
      obtain ⟨agentID, hagent⟩ := hsound.agent_of_expired hguard
      obtain rfl : FencedLease.Event.expire = l := by
        simpa [Event.ownership, Stmt.ownership] using hl
      have hnat : (row.retryCount + 1).toNat = row.retryCount.toNat + 1 := by omega
      simp only [Store.ownership, Row.phase, hagent, if_true, hnat]
      exact .expire agentID _ _

/-- Refinement: from sound tables on, the store executes the protocol on every job. -/
theorem execution_ownership {history : List Event} {db db' : DemandJobs}
    (h : Execution Step db history db') (hs : Sound db) (id : String) :
    Execution FencedLease.Step (ownership (db.lookup id))
      (history.filterMap (Event.ownership id)) (ownership (db'.lookup id)) := by
  refine h.simulate (I := Sound) (fun db => ownership (db.lookup id)) (Event.ownership id) hs
    (fun _ _ _ hs hstep => hs.step hstep) ?_ ?_
  · intro db e db' l hs hstep hl
    exact ((row_step hstep id).simulates (hs id)).1 l hl
  · intro db e db' hs hstep hl
    exact ((row_step hstep id).simulates (hs id)).2 hl

/-- Every run of the store is an execution of the protocol on every job. -/
theorem Run.ownership {history : List Event} {db : DemandJobs} (h : Run history db) (id : String) :
    Execution FencedLease.Step .initial (history.filterMap (Event.ownership id))
      (Store.ownership (db.lookup id)) :=
  execution_ownership h sound_empty id

end MutualCloud.Store
