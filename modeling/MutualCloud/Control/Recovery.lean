import MutualCloud.Control.Handlers
import MutualCloud.Store.Progress

/-!
# Recovery of jobs whose agent is gone

The scan for expired leases, the requeue and the claim have three guards that were written one by
one. On every row of every run they fit together: a job that has not ended is queued or leased, and
once its lease has run out the scan lists it, the requeue takes it and every agent can claim it
(`no_orphan`). The requeue counts in a column of type `INTEGER`; after `2 ^ 31 - 1` requeues of one
job the next one fails in the database, and the job stays leased (`orphan_after_retries`).
-/

namespace MutualCloud.Control

open Go KeyedTable Interaction Labelled Store

/-- Every claim and every heartbeat takes its TTL from `ttlOrDefault`. -/
def TtlsDefault (history : List Store.Event) : Prop :=
  ∀ e ∈ history,
    (∀ id agentID ttl, e.call = .tryClaim id agentID ttl → ∃ sec, ttl = ttlOrDefault sec) ∧
    (∀ id agentID token ttl, e.call = .heartbeat id agentID token ttl →
      ∃ sec, ttl = ttlOrDefault sec)

/-- The event is a claim or a heartbeat of the job with this TTL, and it wrote the row. -/
def Leases (e : Store.Event) (id : String) (ttl : Duration) : Prop :=
  e.Writes id ∧
    ((∃ agentID, e.call = .tryClaim id agentID ttl) ∨
      (∃ agentID token, e.call = .heartbeat id agentID token ttl))

/-- Every agent can claim the job at time `now`, and gets `token`. -/
def ClaimableByAll (db : DemandJobs) (id : String) (now : Time) (token : Int) : Prop :=
  ∀ agentID ttl, ∃ lease,
    ((PGStore.tryClaim id agentID ttl).run Store.effect (fun _ => { now := now }) db).value =
      .ok lease ∧
    lease.agentID = agentID ∧ (lease.fencingToken.toNat : Int) = token

/-! ## The expiry of a lease -/

/-- No TTL is longer than an hour. -/
theorem seconds_ttl_or_default_le (sec : Int) :
    seconds (ttlOrDefault sec) * second ≤ 3600 * second := by
  have hsecond : (0 : Int) < second := by decide
  unfold ttlOrDefault
  split
  · decide
  next hrange =>
      rw [not_or, Int.not_le, Int.not_lt] at hrange
      have hwhole : seconds (sec * second) = sec := Int.mul_tdiv_cancel sec (by decide)
      rw [hwhole]
      exact Int.mul_le_mul_of_nonneg_right hrange.2 hsecond.le

/-- A step on a row keeps its expiry, or clears it, or sets it by a claim or a heartbeat. -/
theorem expiry_step {id : String} {e : Store.Event} {old new : Option Row}
    (h : RowStep id e old new) {row' : Row} (hnew : new = some row') {x : Time}
    (hx : row'.leaseExpiresAt = some x) :
    (∃ row, old = some row ∧ row.leaseExpiresAt = some x) ∨
      ∃ ttl, Leases e id ttl ∧ x = e.input.now + seconds ttl * second := by
  cases h with
  | idle => exact .inl ⟨row', hnew, hx⟩
  | create job =>
      cases hnew
      cases hx
  | attach m _ row =>
      cases hnew
      exact .inl ⟨row, rfl, hx⟩
  | claim agentID ttl input row =>
      cases hnew
      refine .inr ⟨ttl, ⟨⟨rfl, _, rfl, by simp [Stmt.wrote]⟩, .inl ⟨agentID, rfl⟩⟩, ?_⟩
      exact (Option.some.inj hx).symm
  | renew agentID token ttl input row =>
      cases hnew
      refine .inr ⟨ttl, ⟨⟨rfl, _, rfl, by simp [Stmt.wrote]⟩, .inr ⟨agentID, token, rfl⟩⟩, ?_⟩
      exact (Option.some.inj hx).symm
  | finish agentID token outcome input row =>
      cases hnew
      cases hx
  | requeue input row =>
      cases hnew
      cases hx

/-- An expiry that is there after some statements was there before them, or was set by a claim or a
heartbeat among them. -/
theorem expiry_since {start db : DemandJobs} {history : List Store.Event}
    (h : Execution Store.Step start history db) {id : String} {row : Row}
    (hrow : db.lookup id = some row) {x : Time} (hx : row.leaseExpiresAt = some x) :
    (∃ old, start.lookup id = some old ∧ old.leaseExpiresAt = some x) ∨
      ∃ e ∈ history, ∃ ttl, Leases e id ttl ∧ x = e.input.now + seconds ttl * second := by
  induction h generalizing row with
  | refl => exact .inl ⟨row, hrow, hx⟩
  | @snoc before s s' e _ hstep ih =>
      rcases expiry_step (row_step hstep id) hrow hx with ⟨old, hold, hsame⟩ | ⟨ttl, hset⟩
      · rcases ih hold hsame with hstart | ⟨e', he', hset⟩
        · exact .inl hstart
        · exact .inr ⟨e', by simp [he'], hset⟩
      · exact .inr ⟨e, by simp, ttl, hset⟩

/-- Every expiry in a run was set by a claim or a heartbeat of the run. -/
theorem expiry_set {history : List Store.Event} {db : DemandJobs} (h : Store.Run history db)
    {id : String} {row : Row} (hrow : db.lookup id = some row) {x : Time}
    (hx : row.leaseExpiresAt = some x) :
    ∃ e ∈ history, ∃ ttl, Leases e id ttl ∧ x = e.input.now + seconds ttl * second := by
  rcases expiry_since h hrow hx with ⟨old, hold, -⟩ | hset
  · simp at hold
  · exact hset

/-- Every expiry is at most an hour after the claim or heartbeat that set it. -/
theorem expiry_within_hour {history : List Store.Event} {db : DemandJobs}
    (h : Store.Run history db) (httl : TtlsDefault history) {id : String} {row : Row}
    (hrow : db.lookup id = some row) {x : Time} (hx : row.leaseExpiresAt = some x) :
    ∃ e ∈ history, ∃ ttl, Leases e id ttl ∧ x = e.input.now + seconds ttl * second ∧
      x ≤ e.input.now + 3600 * second := by
  obtain ⟨e, he, ttl, hlease, rfl⟩ := expiry_set h hrow hx
  refine ⟨e, he, ttl, hlease, rfl, ?_⟩
  obtain ⟨sec, rfl⟩ : ∃ sec, ttl = ttlOrDefault sec := by
    rcases hlease.2 with ⟨agentID, hcall⟩ | ⟨agentID, token, hcall⟩
    · exact (httl e he).1 id agentID ttl hcall
    · exact (httl e he).2 id agentID token ttl hcall
  exact Int.add_le_add_left (seconds_ttl_or_default_le sec) e.input.now

/-! ## Recovery -/

/-- A claimable row of a run can be claimed by everybody. -/
theorem claimable_by_all {db : DemandJobs} {id : String} {row : Row} {now : Time}
    (hrow : db.lookup id = some row) (hguard : row.Claimable now) (hnonneg : 0 ≤ row.leaseToken)
    (htoken : row.leaseToken + 1 < 2 ^ 63) : ClaimableByAll db id now (row.leaseToken + 1) := by
  intro agentID ttl
  refine ⟨_, PGStore.try_claim_run hrow hguard htoken agentID ttl, rfl, ?_⟩
  show ((uint64 (row.leaseToken + 1)).toNat : Int) = row.leaseToken + 1
  rw [toNat_uint64 (by omega) htoken]
  omega

/-- A leased row of a run whose lease has run out is expired in the sense of the two guards. -/
theorem expired_of_leased {row : Row} (h : row.WellFormed) (hleased : row.leaseAgent ≠ none)
    {now : Time} (hnow : ∀ x ∈ row.leaseExpiresAt, x < now) : row.Expired now := by
  have hexpiry : row.leaseExpiresAt ≠ none := h.expiry.mp hleased
  obtain ⟨x, hx⟩ := Option.ne_none_iff_exists'.mp hexpiry
  exact ⟨h.active hleased, hexpiry, x, hx, hnow x hx⟩

/-- No orphaned job. A job that has not ended is queued or leased. Once its lease has run out, the
scan lists it and, as long as it has been requeued fewer than `2 ^ 31 - 1` times, the requeue
succeeds; then, or at once if it was queued, every agent can claim it, with the next token. And no
lease runs for more than an hour after the claim or heartbeat that set it. -/
theorem no_orphan {history : List Store.Event} {db : DemandJobs} (hrun : Store.Run history db)
    (hcreate : CreatesQueued history) (httl : TtlsDefault history) {id : String} {row : Row}
    (hrow : db.lookup id = some row) (hlive : ¬ row.status.Terminal) :
    (row.status = .queued ∨ row.leaseAgent ≠ none) ∧
    (∀ now, (∀ x ∈ row.leaseExpiresAt, x < now) →
      (row.status = .queued → ClaimableByAll db id now (row.leaseToken + 1)) ∧
      (row.leaseAgent ≠ none →
        (∀ cutoff, ∃ ids,
          ((PGStore.listExpiredLeases cutoff).run Store.effect (fun _ => { now := now }) db).value =
            .ok ids ∧ id ∈ ids) ∧
        (row.retryCount < 2 ^ 31 - 1 →
          ((PGStore.setStatusQueued id).run Store.effect (fun _ => { now := now }) db).value =
            .ok () ∧
          ClaimableByAll
            ((PGStore.setStatusQueued id).run Store.effect (fun _ => { now := now }) db).state
            id now (row.leaseToken + 1)))) ∧
    (∀ x, row.leaseExpiresAt = some x →
      ∃ e ∈ history, ∃ ttl, Leases e id ttl ∧ x = e.input.now + seconds ttl * second ∧
        x ≤ e.input.now + 3600 * second) := by
  have hw := hrun.well_formed hcreate hrow
  have hnonneg := hw.token_nonneg
  have htoken := hrun.token_room hrow
  refine ⟨?_, ?_, fun x hx => expiry_within_hour hrun httl hrow hx⟩
  · cases hs : row.status with
    | queued => exact .inl rfl
    | assigned => exact .inr (hw.leased (.inl hs))
    | running => exact .inr (hw.leased (.inr hs))
    | succeeded => exact absurd (.inl hs) hlive
    | failed => exact absurd (.inr hs) hlive
    | other text => exact absurd hs (hw.known text)
  · intro now hnow
    refine ⟨?_, ?_⟩
    · intro hq
      exact claimable_by_all hrow (hw.claimable_of_queued hq now) hnonneg htoken
    · intro hleased
      have hguard := expired_of_leased hw hleased hnow
      refine ⟨?_, ?_⟩
      · intro cutoff
        obtain ⟨ids, hids, hmem⟩ := @PGStore.list_expired_leases_run db cutoff now
        exact ⟨ids, hids, (hmem id).mpr ⟨row, hrow, hguard⟩⟩
      · intro hretries
        have hroom : row.retryCount + 1 < 2 ^ 31 := by omega
        refine ⟨(PGStore.set_status_queued_run hrow hguard).mpr hroom, ?_⟩
        rw [PGStore.set_status_queued_state hrow hguard hroom]
        -- the requeue clears the expiry, so the claim does not look at the clock
        have hlookup : (db.insert id row.requeued).lookup id = some row.requeued :=
          AList.lookup_insert db
        have hclaim := claimable_by_all hlookup (row.requeued_claimable now) hnonneg htoken
        exact hclaim

namespace Sample

/-- The lease of the claimed sample job. -/
theorem claimed_ttls : TtlsDefault (play Store.Sample.claimed).1 := by
  intro e he
  simp only [play, Store.Sample.claimed, replay, List.mem_cons, List.not_mem_nil, or_false] at he
  refine ⟨?_, ?_⟩
  · intro id agentID ttl hcall
    rcases he with rfl | rfl
    · cases hcall
    · cases hcall
      exact ⟨15, rfl⟩
  · intro id agentID token ttl hcall
    rcases he with rfl | rfl <;> cases hcall

end Sample

/-- Once the lease of the agent `a` has run out, the sample job is listed. -/
theorem no_orphan_claimed :
    Store.Sample.claimedRow.leaseAgent ≠ none ∧
    ∃ ids, ((PGStore.listExpiredLeases 0).run Store.effect (fun _ => { now := 15000000003 })
      (play Store.Sample.claimed).2).value = .ok ids ∧ "job" ∈ ids := by
  have hexpired : ∀ x ∈ Store.Sample.claimedRow.leaseExpiresAt, x < (15000000003 : Time) := by
    decide
  have hlive : ¬ Store.Sample.claimedRow.status.Terminal := by decide
  have hleased : Store.Sample.claimedRow.leaseAgent ≠ none := by decide
  have hrecovery := no_orphan (play_run Store.Sample.claimed) Store.Sample.claimed_creates
    Sample.claimed_ttls Store.Sample.claimed_row hlive
  exact ⟨hleased, ((hrecovery.2.1 15000000003 hexpired).2 hleased).1 0⟩

/-! ## The end of the counter -/

namespace Sample

/-- The time at which the sample job is claimed for the `n`-th time. -/
def claimTime (n : ℕ) : Time := n * (20 * second)

/-- The time at which it is put back to the queue. -/
def requeueTime (n : ℕ) : Time := claimTime n + 16 * second

/-- The history and table of a run that has put the sample job back to the queue `n` times. -/
structure Retried (n : ℕ) (history : List Store.Event) (db : DemandJobs) (row : Row) : Prop where
  run : Store.Run history db
  creates : CreatesQueued history
  ttls : TtlsDefault history
  lookup : db.lookup "job" = some row
  status : row.status = .queued
  expiry : row.leaseExpiresAt = none
  retries : row.retryCount = n

/-- The history after the next claim. -/
def claimNext (n : ℕ) (row : Row) (history : List Store.Event) : List Store.Event :=
  history ++ [⟨.tryClaim "job" "a" (ttlOrDefault 15), { now := claimTime n },
    .ok (some (row.leaseToken + 1, claimTime n + seconds (ttlOrDefault 15) * second))⟩]

/-- The row after the next claim. -/
def claimedNext (n : ℕ) (row : Row) : Row :=
  row.claimed "a" (ttlOrDefault 15) (claimTime n)

/-- The lease of the next claim has run out at the time of the next requeue. -/
theorem claimed_next_expired (n : ℕ) (row : Row) : (claimedNext n row).Expired (requeueTime n) := by
  refine ⟨.inl rfl, by simp [claimedNext, Row.claimed], _, rfl, ?_⟩
  have hlt : seconds (ttlOrDefault 15) * second < 16 * second := by decide
  exact Int.add_lt_add_left hlt (claimTime n)

variable {n : ℕ} {history : List Store.Event} {db : DemandJobs} {row : Row}

/-- The next claim succeeds. -/
theorem Retried.claim_step (h : Retried n history db row) :
    Store.Run (claimNext n row history) (db.insert "job" (claimedNext n row)) :=
  h.run.snoc (effect_try_claim h.lookup ⟨h.status, .inl h.expiry⟩ (h.run.token_room h.lookup) "a"
    (ttlOrDefault 15))

/-- The next claim creates no job. -/
theorem Retried.claim_creates (h : Retried n history db row) :
    CreatesQueued (claimNext n row history) := by
  intro e he job hcall
  rcases List.mem_append.mp he with he | he
  · exact h.creates e he job hcall
  · rw [List.mem_singleton.mp he] at hcall
    cases hcall

/-- The next claim has a TTL of 15 seconds. -/
theorem Retried.claim_ttls (h : Retried n history db row) :
    TtlsDefault (claimNext n row history) := by
  intro e he
  rcases List.mem_append.mp he with he | he
  · exact h.ttls e he
  · rw [List.mem_singleton.mp he]
    refine ⟨?_, ?_⟩
    · intro id agentID ttl hcall
      cases hcall
      exact ⟨15, rfl⟩
    · intro id agentID token ttl hcall
      cases hcall

/-- As long as the counter can grow, the job is put back to the queue once more. -/
theorem Retried.next (h : Retried n history db row) (hn : n + 1 < 2 ^ 31) :
    Retried (n + 1)
      (claimNext n row history ++
        [⟨.setStatusQueued "job", { now := requeueTime n }, .ok (1 : ℕ)⟩])
      ((db.insert "job" (claimedNext n row)).insert "job" (claimedNext n row).requeued)
      (claimedNext n row).requeued := by
  have hlookup : (db.insert "job" (claimedNext n row)).lookup "job" = some (claimedNext n row) :=
    AList.lookup_insert db
  have hretries : (claimedNext n row).retryCount = n := h.retries
  have hroom : (claimedNext n row).retryCount + 1 < 2 ^ 31 := by omega
  refine ⟨?_, ?_, ?_, AList.lookup_insert _, rfl, rfl, ?_⟩
  · exact h.claim_step.snoc
      (effect_set_status_queued hlookup (claimed_next_expired n row) hroom)
  · intro e he job hcall
    rcases List.mem_append.mp he with he | he
    · exact h.claim_creates e he job hcall
    · rw [List.mem_singleton.mp he] at hcall
      cases hcall
  · intro e he
    rcases List.mem_append.mp he with he | he
    · exact h.claim_ttls e he
    · rw [List.mem_singleton.mp he]
      exact ⟨fun _ _ _ hcall => (nomatch hcall), fun _ _ _ _ hcall => (nomatch hcall)⟩
  · show (claimedNext n row).retryCount + 1 = ((n + 1 : ℕ) : Int)
    rw [hretries]
    rfl

/-- The sample job can be put back to the queue as often as the counter counts. -/
theorem retried (n : ℕ) (hn : n < 2 ^ 31) : ∃ history db row, Retried n history db row := by
  induction n with
  | zero =>
      refine ⟨_, _, Row.fresh Store.Sample.job,
        ⟨play_run [(.createJob Store.Sample.job, { now := 0 })], ?_, ?_, rfl, rfl, rfl, rfl⟩⟩
      · intro e he job hcall
        simp only [play, replay, List.mem_singleton] at he
        subst he
        cases hcall
        rfl
      · intro e he
        simp only [play, replay, List.mem_singleton] at he
        subst he
        constructor
        · intro _ _ _ hcall
          cases hcall
        · intro _ _ _ _ hcall
          cases hcall
  | succ n ih =>
      obtain ⟨history, db, row, h⟩ := ih (by omega)
      exact ⟨_, _, _, h.next hn⟩

end Sample

/-- After `2 ^ 31 - 1` requeues the sample job is leased once more; its lease has run out, and the
requeue fails, since the retry counter has reached the end of its column type. -/
theorem orphan_after_retries :
    ∃ history db row, Store.Run history db ∧ CreatesQueued history ∧ TtlsDefault history ∧
      db.lookup "job" = some row ∧ ¬ row.status.Terminal ∧ row.leaseAgent ≠ none ∧
      (∀ x ∈ row.leaseExpiresAt, x < Sample.requeueTime (2 ^ 31 - 1)) ∧
      ((PGStore.setStatusQueued "job").run Store.effect
        (fun _ => { now := Sample.requeueTime (2 ^ 31 - 1) }) db).value ≠ .ok () := by
  obtain ⟨history, db, row, h⟩ := Sample.retried (2 ^ 31 - 1) (by omega)
  have hlookup : (db.insert "job" (Sample.claimedNext (2 ^ 31 - 1) row)).lookup "job" =
      some (Sample.claimedNext (2 ^ 31 - 1) row) := AList.lookup_insert db
  have hexpired := Sample.claimed_next_expired (2 ^ 31 - 1) row
  refine ⟨_, _, _, h.claim_step, h.claim_creates, h.claim_ttls, hlookup, ?_, ?_, ?_, ?_⟩
  · exact hexpired.1.not_terminal
  · simp [Sample.claimedNext, Row.claimed]
  · intro x hx
    obtain ⟨y, hy, hlt⟩ := hexpired.2.2
    obtain rfl : y = x := Option.some.inj (hy.symm.trans hx)
    exact hlt
  · rw [ne_eq, PGStore.set_status_queued_run hlookup hexpired]
    have hretries : (Sample.claimedNext (2 ^ 31 - 1) row).retryCount = ((2 ^ 31 - 1 : ℕ) : Int) :=
      h.retries
    rw [hretries]
    omega

end MutualCloud.Control
