import MutualCloud.Library.Postcondition
import MutualCloud.Store.Fencing
import MutualCloud.Store.PGStore

/-!
# Statements whose guard holds

What `TryClaim`, `SetStatusQueued` and `ListExpiredLeases` do on a row that passes their guards.
The two counters of a row are bounded by the types of their columns: a run keeps `retry_count`
below `2 ^ 31` (`Run.retries_lt`), and `lease_token`, which is at most one ahead of it, far below
`2 ^ 63`. So a claimable row is always claimed (`try_claim_run`), while a requeue succeeds on an
expired row exactly as long as its `retry_count` can still grow (`set_status_queued_run`). Under any
input an `UPDATE` writes a row that passes its guard, finds none, or fails (`effect_of_update`).

Only `CreateJob` and `SetStatusQueued` put a row to the queue; `RowsKept` is what every other
statement leaves as it is.
-/

namespace MutualCloud.Store

open Go KeyedTable Interaction Labelled

namespace Row

/-- The row after a claim. -/
def claimed (agentID : String) (ttl : Duration) (now : Time) (row : Row) : Row :=
  { row with
    leaseAgent := some agentID
    leaseExpiresAt := some (now + seconds ttl * second)
    leaseToken := row.leaseToken + 1
    status := .assigned }

/-- The row after a requeue. -/
def requeued (row : Row) : Row :=
  { row with
    status := .queued
    leaseAgent := none
    leaseExpiresAt := none
    retryCount := row.retryCount + 1 }

theorem claim_eq {row : Row} (h : row.leaseToken + 1 < 2 ^ 63) (agentID : String) (ttl : Duration)
    (now : Time) : row.claim agentID ttl now = .ok (row.claimed agentID ttl now) :=
  if_pos h

theorem requeue_eq {row : Row} (h : row.retryCount + 1 < 2 ^ 31) :
    row.requeue = .ok row.requeued :=
  if_pos h

theorem requeue_full {row : Row} (h : ¬ row.retryCount + 1 < 2 ^ 31) :
    row.requeue = .error "integer out of range" :=
  if_neg h

/-- A claim leaves a sound row. -/
theorem Sound.claimed {row : Row} (h : row.Sound) (agentID : String) (ttl : Duration) (now : Time)
    (hroom : row.leaseToken + 1 < 2 ^ 63) : (row.claimed agentID ttl now).Sound where
  token_nonneg := by
    have hnonneg := h.token_nonneg
    show 0 ≤ row.leaseToken + 1
    omega
  token_lt := hroom
  retries_nonneg := h.retries_nonneg
  active := fun _ => .inl rfl
  expiry := by simp [Row.claimed]

/-- A requeued row can be claimed at any time. -/
theorem requeued_claimable (row : Row) (now : Time) : row.requeued.Claimable now :=
  ⟨rfl, .inl rfl⟩

end Row

/-! ## The counters -/

/-- One step on one row keeps the retry counter in the range of its column. -/
theorem RowStep.retries_lt {id : String} {e : Event} {old new : Option Row}
    (h : RowStep id e old new) (hold : ∀ row, old = some row → row.retryCount < 2 ^ 31) :
    ∀ row, new = some row → row.retryCount < 2 ^ 31 := by
  intro row' hnew
  cases h with
  | idle => exact hold row' hnew
  | create job =>
      cases hnew
      show (0 : Int) < 2 ^ 31
      omega
  | attach m _ row =>
      cases hnew
      exact hold row rfl
  | claim agentID ttl input row =>
      cases hnew
      exact hold row rfl
  | renew agentID token ttl input row =>
      cases hnew
      exact hold row rfl
  | finish agentID token outcome input row =>
      cases hnew
      exact hold row rfl
  | requeue input row _ hlt =>
      cases hnew
      exact hlt

/-- Every retry counter of every run is in the range of its column. -/
theorem Run.retries_lt {history : List Event} {db : DemandJobs} (h : Run history db) {id : String}
    {row : Row} (hrow : db.lookup id = some row) : row.retryCount < 2 ^ 31 := by
  refine h.invariant (I := fun db => ∀ row, db.lookup id = some row → row.retryCount < 2 ^ 31)
    (fun _ hempty => by simp at hempty) ?_ row hrow
  intro s e s' hs hstep
  exact (row_step hstep id).retries_lt hs

/-- No statement takes a row away, or lowers its retry counter. -/
theorem retries_mono {start db : DemandJobs} {history : List Event}
    (h : Execution Step start history db) {id : String} {old row : Row}
    (hold : start.lookup id = some old) (hrow : db.lookup id = some row) :
    old.retryCount ≤ row.retryCount := by
  have hkept : ∃ row, db.lookup id = some row ∧ old.retryCount ≤ row.retryCount := by
    refine h.invariant (I := fun db => ∃ row, db.lookup id = some row ∧
      old.retryCount ≤ row.retryCount) ⟨old, hold, le_refl _⟩ ?_
    rintro s e s' ⟨row, hrow, hle⟩ hstep
    have hrs := row_step hstep id
    rw [hrow] at hrs
    generalize s'.lookup id = new at hrs
    cases hrs with
    | idle => exact ⟨row, rfl, hle⟩
    | attach | claim | renew | finish => exact ⟨_, rfl, hle⟩
    | requeue => exact ⟨_, rfl, Int.le_add_one hle⟩
  obtain ⟨row', hrow', hle⟩ := hkept
  obtain rfl : row' = row := Option.some.inj (hrow'.symm.trans hrow)
  exact hle

/-- The token of a job is at most one ahead of its retry counter. -/
theorem Run.token_le_retries {history : List Event} {db : DemandJobs} (h : Run history db)
    {id : String} {row : Row} (hrow : db.lookup id = some row) :
    row.leaseToken ≤ row.retryCount + 1 := by
  have hs := h.sound id row hrow
  have htoken := hs.token_nonneg
  have hretries := hs.retries_nonneg
  have hbalance := (FencedLease.balance (h.ownership id)).2.2
  rw [hrow] at hbalance
  have heither : row.leaseToken.toNat = row.retryCount.toNat ∨
      row.leaseToken.toNat = row.retryCount.toNat + 1 := hbalance
  omega

/-- The token of a leased job is one ahead of its retry counter. -/
theorem Run.token_of_leased {history : List Event} {db : DemandJobs} (h : Run history db)
    {id : String} {row : Row} (hrow : db.lookup id = some row) (hleased : row.leaseAgent ≠ none) :
    row.leaseToken = row.retryCount + 1 := by
  have hs := h.sound id row hrow
  have htoken := hs.token_nonneg
  have hretries := hs.retries_nonneg
  obtain ⟨agentID, hagent⟩ := Option.ne_none_iff_exists'.mp hleased
  have hbalance := (FencedLease.balance (h.ownership id)).2.1 agentID
  rw [hrow] at hbalance
  have heq : row.leaseToken.toNat = row.retryCount.toNat + 1 :=
    hbalance (by simp [Store.ownership, Row.phase, hagent])
  omega

/-- There is always a next token. -/
theorem Run.token_room {history : List Event} {db : DemandJobs} (h : Run history db) {id : String}
    {row : Row} (hrow : db.lookup id = some row) : row.leaseToken + 1 < 2 ^ 63 := by
  have hlt := h.retries_lt hrow
  have hle := h.token_le_retries hrow
  omega

/-! ## Rows that stay -/

/-- The statement can put a row to the queue. -/
def Stmt.Queues : Stmt → Prop
  | .createJob _ | .setStatusQueued _ => True
  | .getJob _ | .attachManifest _ _ | .tryClaim _ _ _ | .claimRefusal _ | .heartbeat _ _ _ _
  | .finish _ _ _ _ | .listExpiredLeases => False

/-- From one table to the other no job was added or put to the queue, and every job kept its image
and its command. -/
def RowsKept (db db' : DemandJobs) : Prop :=
  ∀ id row', db'.lookup id = some row' → ∃ row, db.lookup id = some row ∧
    row.image = row'.image ∧ row.command = row'.command ∧
    (row'.status = .queued → row.status = .queued)

theorem RowsKept.refl (db : DemandJobs) : RowsKept db db :=
  fun _ row' hrow => ⟨row', hrow, rfl, rfl, fun hq => hq⟩

theorem RowsKept.trans {db₀ db₁ db₂ : DemandJobs} (h : RowsKept db₀ db₁) (h' : RowsKept db₁ db₂) :
    RowsKept db₀ db₂ := by
  intro id row₂ hrow₂
  obtain ⟨row₁, hrow₁, himage, hcommand, hqueued⟩ := h' id row₂ hrow₂
  obtain ⟨row₀, hrow₀, himage', hcommand', hqueued'⟩ := h id row₁ hrow₁
  exact ⟨row₀, hrow₀, himage'.trans himage, hcommand'.trans hcommand, hqueued' ∘ hqueued⟩

/-- A statement that does not queue keeps the rows. -/
theorem rows_kept {s : Stmt} (hs : ¬ s.Queues) (input : Input) (db : DemandJobs) :
    RowsKept db (effect s input db).2 := by
  intro id row' hrow'
  have hstep := row_step (effect_step s input db) id
  rw [hrow'] at hstep
  generalize hold : db.lookup id = old at hstep
  generalize (effect s input db).1 = response at hstep
  cases hstep with
  | idle => exact ⟨row', rfl, rfl, rfl, fun hq => hq⟩
  | create | requeue => exact absurd trivial hs
  | attach m input row => exact ⟨row, rfl, rfl, rfl, fun hq => hq⟩
  | claim agentID ttl input row => exact ⟨row, rfl, rfl, rfl, nofun⟩
  | renew agentID token ttl input row => exact ⟨row, rfl, rfl, rfl, nofun⟩
  | finish agentID token outcome input row =>
      exact ⟨row, rfl, rfl, rfl, fun hq => absurd hq outcome.status_terminal.ne_queued⟩

/-- The job has no row that is queued. -/
def NotQueued (id : String) (db : DemandJobs) : Prop :=
  ∀ row, db.lookup id = some row → row.status ≠ .queued

/-- A job that is not queued stays so while no statement queues. -/
theorem NotQueued.of_kept {id : String} {db db' : DemandJobs} (h : NotQueued id db)
    (hkept : RowsKept db db') : NotQueued id db' := by
  intro row' hrow' hq
  obtain ⟨row, hrow, -, -, hqueued⟩ := hkept id row' hrow'
  exact h row hrow (hqueued hq)

/-! ## The statements -/

variable {db : DemandJobs} {id : String} {row : Row}

/-- A claim of a claimable row. -/
theorem effect_try_claim (hrow : db.lookup id = some row) {now : Time} (hguard : row.Claimable now)
    (htoken : row.leaseToken + 1 < 2 ^ 63) (agentID : String) (ttl : Duration) :
    effect (.tryClaim id agentID ttl) { now := now } db =
      (.ok (some (row.leaseToken + 1, now + seconds ttl * second)),
        db.insert id (row.claimed agentID ttl now)) := by
  simp only [effect, Stmt.exec, update_of_set hrow hguard (Row.claim_eq htoken agentID ttl now)]
  rfl

/-- A requeue of an expired row, as long as the counter can grow. -/
theorem effect_set_status_queued (hrow : db.lookup id = some row) {now : Time}
    (hguard : row.Expired now) (hretries : row.retryCount + 1 < 2 ^ 31) :
    effect (.setStatusQueued id) { now := now } db = (.ok (1 : ℕ), db.insert id row.requeued) := by
  simp only [effect, Stmt.exec, update_of_set hrow hguard (Row.requeue_eq hretries)]
  rfl

/-- A requeue of an expired row whose counter cannot grow fails. -/
theorem effect_set_status_queued_full (hrow : db.lookup id = some row) {now : Time}
    (hguard : row.Expired now) (hretries : ¬ row.retryCount + 1 < 2 ^ 31) :
    effect (.setStatusQueued id) { now := now } db = (.error "integer out of range", db) := by
  simp [effect, Stmt.exec, update, hrow, hguard, Row.requeue_full hretries, Except.map]

/-- What a `SetStatusQueued` of job `k` leaves of a row when the database does not fail. -/
theorem set_status_queued_lookup {input : Input} (hfault : input.fault = none) (k id : String) :
    (effect (.setStatusQueued k) input db).2.lookup id =
      (db.lookup id).map fun row =>
        if k = id ∧ row.Expired input.now ∧ row.retryCount + 1 < 2 ^ 31 then row.requeued
        else row := by
  have hstate : (effect (.setStatusQueued k) input db).2 =
      (update db k (Row.Expired input.now) Row.requeue).2 := by
    simp only [effect, hfault, Stmt.exec]
  rw [hstate]
  rcases update_lookup db k (Row.Expired input.now) Row.requeue id with
    ⟨rfl, row, row', hrow, hguard, hset, -, hrow'⟩ | ⟨hsame, hnot⟩
  · obtain ⟨hroom, rfl⟩ := Row.requeue_ok hset
    rw [hrow', hrow, Option.map_some, if_pos ⟨rfl, hguard, hroom⟩]
    rfl
  · rw [hsame]
    cases hrow : db.lookup id with
    | none => rfl
    | some row =>
        rw [Option.map_some, if_neg]
        rintro ⟨rfl, hguard, hroom⟩
        refine hnot rfl row.requeued ?_
        rw [update_of_set hrow hguard (Row.requeue_eq hroom)]

/-- What an `UPDATE` can do under an input: write a row that passes its guard, find none, or
fail. -/
theorem effect_of_update {s : Stmt} {guard : Row → Prop} [DecidablePred guard]
    {set : Row → Except SqlError Row} {f : Option Row → s.Rows} (input : Input)
    (hexec : s.exec input.now db = ((update db id guard set).1.map f, (update db id guard set).2)) :
    (∃ row row', input.fault = none ∧ db.lookup id = some row ∧ guard row ∧ set row = .ok row' ∧
      effect s input db = (.ok (f (some row')), db.insert id row')) ∨
    ((∀ row, db.lookup id = some row → ¬ guard row) ∧ effect s input db = (.ok (f none), db)) ∨
    ∃ e, (input.fault = some e ∨ ∃ row, set row = .error e) ∧
      effect s input db = (.error e, db) := by
  unfold effect
  cases hfault : input.fault with
  | some e => exact .inr (.inr ⟨e, .inl rfl, rfl⟩)
  | none =>
      dsimp only
      rw [hexec]
      rcases hu : update db id guard set with ⟨result, db'⟩
      rcases update_cases hu with ⟨row, row', hrow, hguard, hset, rfl, rfl⟩ | ⟨hnone, rfl, rfl⟩ |
        ⟨row, e, -, -, hset, rfl, rfl⟩
      · exact .inl ⟨row, row', rfl, hrow, hguard, hset, rfl⟩
      · exact .inr (.inl ⟨hnone, rfl⟩)
      · exact .inr (.inr ⟨e, .inr ⟨row, hset⟩, rfl⟩)

/-- What the statement of `TryClaim` can do. -/
theorem try_claim_cases (agentID : String) (ttl : Duration) (input : Input) :
    (∃ row, db.lookup id = some row ∧ row.Claimable input.now ∧ row.leaseToken + 1 < 2 ^ 63 ∧
      effect (.tryClaim id agentID ttl) input db =
        (.ok (some (row.leaseToken + 1, input.now + seconds ttl * second)),
          db.insert id (row.claimed agentID ttl input.now))) ∨
    ((∀ row, db.lookup id = some row → ¬ row.Claimable input.now) ∧
      effect (.tryClaim id agentID ttl) input db = (.ok none, db)) ∨
    ∃ e, effect (.tryClaim id agentID ttl) input db = (.error e, db) := by
  rcases effect_of_update (s := .tryClaim id agentID ttl) (f := Option.map Stmt.returning) input
    rfl with ⟨row, row', -, hrow, hguard, hset, heffect⟩ | hnone | ⟨e, -, heffect⟩
  · obtain ⟨hroom, rfl⟩ := Row.claim_ok hset
    exact .inl ⟨row, hrow, hguard, hroom, heffect⟩
  · exact .inr (.inl hnone)
  · exact .inr (.inr ⟨e, heffect⟩)

/-- What the statement of `Heartbeat` can do. -/
theorem heartbeat_cases (agentID : String) (token : UInt64) (ttl : Duration) (input : Input) :
    (∃ row, input.fault = none ∧ db.lookup id = some row ∧ row.HeldBy agentID token ∧
      effect (.heartbeat id agentID token ttl) input db =
        (.ok (1 : ℕ), db.insert id (row.renew ttl input.now))) ∨
    ((∀ row, db.lookup id = some row → ¬ row.HeldBy agentID token) ∧
      effect (.heartbeat id agentID token ttl) input db = (.ok (0 : ℕ), db)) ∨
    ∃ e, input.fault = some e ∧
      effect (.heartbeat id agentID token ttl) input db = (.error e, db) := by
  rcases effect_of_update (s := .heartbeat id agentID token ttl) (f := affected) input
    rfl with ⟨row, row', hfault, hrow, hguard, hset, heffect⟩ | hnone | ⟨e, herror, heffect⟩
  · obtain rfl := Except.ok.inj hset
    exact .inl ⟨row, hfault, hrow, hguard, heffect⟩
  · exact .inr (.inl hnone)
  · rcases herror with hfault | ⟨row, hset⟩
    · exact .inr (.inr ⟨e, hfault, heffect⟩)
    · cases hset

/-- What the statement of `Finish` can do. -/
theorem finish_cases (agentID : String) (token : UInt64) (outcome : Outcome) (input : Input) :
    (∃ row, db.lookup id = some row ∧ row.Finishable agentID token ∧
      effect (.finish id agentID token outcome) input db =
        (.ok (1 : ℕ), db.insert id (row.finish outcome))) ∨
    ((∀ row, db.lookup id = some row → ¬ row.Finishable agentID token) ∧
      effect (.finish id agentID token outcome) input db = (.ok (0 : ℕ), db)) ∨
    ∃ e, effect (.finish id agentID token outcome) input db = (.error e, db) := by
  rcases effect_of_update (s := .finish id agentID token outcome) (f := affected) input
    rfl with ⟨row, row', -, hrow, hguard, hset, heffect⟩ | hnone | ⟨e, -, heffect⟩
  · obtain rfl := Except.ok.inj hset
    exact .inl ⟨row, hrow, hguard, heffect⟩
  · exact .inr (.inl hnone)
  · exact .inr (.inr ⟨e, heffect⟩)

/-- What the statement of `SetStatusQueued` can do. -/
theorem set_status_queued_cases (input : Input) :
    (∃ row, db.lookup id = some row ∧ row.Expired input.now ∧ row.retryCount + 1 < 2 ^ 31 ∧
      effect (.setStatusQueued id) input db = (.ok (1 : ℕ), db.insert id row.requeued)) ∨
    effect (.setStatusQueued id) input db = (.ok (0 : ℕ), db) ∨
    ∃ e, effect (.setStatusQueued id) input db = (.error e, db) := by
  rcases effect_of_update (s := .setStatusQueued id) (f := affected) input
    rfl with ⟨row, row', -, hrow, hguard, hset, heffect⟩ | hnone | ⟨e, -, heffect⟩
  · obtain ⟨hroom, rfl⟩ := Row.requeue_ok hset
    exact .inl ⟨row, hrow, hguard, hroom, heffect⟩
  · exact .inr (.inl hnone.2)
  · exact .inr (.inr ⟨e, heffect⟩)

/-- The jobs that the scan for expired leases lists. -/
theorem mem_expired_iff {now : Time} :
    id ∈ (db.entries.filter fun entry => Row.Expired now entry.2).map Sigma.fst ↔
      ∃ row, db.lookup id = some row ∧ row.Expired now := by
  constructor
  · intro hid
    obtain ⟨⟨k, row⟩, hmem, rfl⟩ := List.mem_map.mp hid
    obtain ⟨hentry, hguard⟩ := List.mem_filter.mp hmem
    exact ⟨row, AList.mem_lookup_iff.mpr hentry, of_decide_eq_true hguard⟩
  · rintro ⟨row, hrow, hguard⟩
    refine List.mem_map.mpr ⟨⟨id, row⟩, List.mem_filter.mpr ⟨?_, decide_eq_true hguard⟩, rfl⟩
    exact AList.mem_lookup_iff.mp hrow

/-! ## The methods -/

namespace PGStore

/-- `TryClaim` on a claimable row returns the next token. -/
theorem try_claim_run (hrow : db.lookup id = some row) {now : Time} (hguard : row.Claimable now)
    (htoken : row.leaseToken + 1 < 2 ^ 63) (agentID : String) (ttl : Duration) :
    ((tryClaim id agentID ttl).run effect (fun _ => { now := now }) db).value =
      .ok ⟨agentID, now + seconds ttl * second, uint64 (row.leaseToken + 1)⟩ := by
  simp [tryClaim, Prog.run, effect_try_claim hrow hguard htoken]

/-- `SetStatusQueued` on an expired row succeeds exactly as long as the counter can grow. -/
theorem set_status_queued_run (hrow : db.lookup id = some row) {now : Time}
    (hguard : row.Expired now) :
    ((setStatusQueued id).run effect (fun _ => { now := now }) db).value = .ok () ↔
      row.retryCount + 1 < 2 ^ 31 := by
  by_cases hretries : row.retryCount + 1 < 2 ^ 31
  · refine iff_of_true ?_ hretries
    simp [setStatusQueued, Prog.run, effect_set_status_queued hrow hguard hretries, requireRow]
  · refine iff_of_false ?_ hretries
    simp [setStatusQueued, Prog.run, effect_set_status_queued_full hrow hguard hretries, requireRow]

/-- The table after a requeue of an expired row. -/
theorem set_status_queued_state (hrow : db.lookup id = some row) {now : Time}
    (hguard : row.Expired now) (hretries : row.retryCount + 1 < 2 ^ 31) :
    ((setStatusQueued id).run effect (fun _ => { now := now }) db).state =
      db.insert id row.requeued := by
  simp [setStatusQueued, Prog.run, effect_set_status_queued hrow hguard hretries]

/-- `SetStatusQueued` requeues an expired row, or reports an error and leaves the table alone. -/
theorem ensures_set_status_queued :
    (setStatusQueued id).Ensures effect (fun _ => True) db fun result db' =>
      (result = .ok () ∧ ∃ row now, db.lookup id = some row ∧ row.Expired now ∧
        row.retryCount + 1 < 2 ^ 31 ∧ db' = db.insert id row.requeued) ∨
      (result ≠ .ok () ∧ db' = db) := by
  intro input _
  show (requireRow .jobNotFound (effect (.setStatusQueued id) input db).1 = .ok () ∧ _) ∨ _
  rcases set_status_queued_cases input with ⟨row, hrow, hguard, hroom, heffect⟩ | heffect |
    ⟨e, heffect⟩
  · rw [heffect]
    exact .inl ⟨rfl, row, input.now, hrow, hguard, hroom, rfl⟩
  · rw [heffect]
    exact .inr ⟨nofun, rfl⟩
  · rw [heffect]
    exact .inr ⟨nofun, rfl⟩

/-- A method that does not queue keeps the rows. -/
theorem ensures_rows_kept {α : Type} {m : Method α}
    (h : m.Always (fun _ _ => True) fun s => ¬ s.Queues) :
    m.Ensures effect (fun _ => True) db fun _ db' => RowsKept db db' :=
  Prog.ensures_of_always h (fun _ input db' hs hkept => hkept.trans (rows_kept hs input db'))
    (RowsKept.refl db)

/-- `TryClaim` does not queue. -/
theorem try_claim_always (id agentID : String) (ttl : Duration) :
    (tryClaim id agentID ttl).Always (fun _ _ => True) fun s => ¬ s.Queues := by
  refine ⟨nofun, fun response _ => ?_⟩
  rcases response with e | (_ | ⟨token, expireAt⟩)
  · trivial
  · refine ⟨nofun, fun response _ => ?_⟩
    rcases response with e | (_ | job)
    · trivial
    · trivial
    · exact ⟨nofun, fun _ _ => trivial⟩
  · trivial

/-- After `TryClaim` the job is not queued, unless the database failed. -/
theorem ensures_try_claim (hsound : Sound db) (agentID : String) (ttl : Duration) :
    (tryClaim id agentID ttl).Ensures effect (fun _ => True) db fun result db' =>
      (∃ e, result = .error (.sql e)) ∨ NotQueued id db' := by
  intro input _
  rcases try_claim_cases agentID ttl input with ⟨row, -, -, -, heffect⟩ | ⟨hnone, heffect⟩ |
    ⟨e, heffect⟩
  · rw [heffect]
    refine .inr fun row' hrow' => ?_
    rw [AList.lookup_insert] at hrow'
    obtain rfl := Option.some.inj hrow'
    exact nofun
  · -- a queued row would have been claimed
    have hnot : NotQueued id db := fun row hrow hq =>
      hnone row hrow ((hsound id row hrow).claimable_of_queued hq input.now)
    rw [heffect]
    have hrest := (try_claim_always id agentID ttl).2 (.ok none) trivial
    refine Prog.Ensures.mono (Q := fun _ db => NotQueued id db) ?_ fun _ _ hdb => .inr hdb
    exact Prog.ensures_of_always hrest
      (fun _ input db hs hdb => hdb.of_kept (rows_kept hs input db)) hnot
  · rw [heffect]
    exact .inl ⟨e, rfl⟩

/-- After a `Finish` that reports success the job is not queued, if it would accept a queued
row. -/
theorem ensures_finish {agentID : String} {token : UInt64}
    (haccept : ∀ row, db.lookup id = some row → row.status = .queued →
      row.Finishable agentID token) (outcome : Outcome) :
    (finish id agentID token outcome).Ensures effect (fun _ => True) db fun result db' =>
      (∃ e, result = .error e) ∨ NotQueued id db' := by
  intro input _
  rcases finish_cases agentID token outcome input with ⟨row, -, -, heffect⟩ | ⟨hnone, heffect⟩ |
    ⟨e, heffect⟩
  · rw [heffect]
    refine .inr fun row' hrow' => ?_
    rw [AList.lookup_insert] at hrow'
    obtain rfl := Option.some.inj hrow'
    exact outcome.status_terminal.ne_queued
  · rw [heffect]
    exact .inr fun row hrow hq => hnone row hrow (haccept row hrow hq)
  · rw [heffect]
    exact .inl ⟨.sql e, rfl⟩

/-- A `Finish` that fails leaves the table alone. -/
theorem ensures_finish_kept {agentID : String} {token : UInt64} {outcome : Outcome} :
    (finish id agentID token outcome).Ensures effect (fun _ => True) db fun result db' =>
      result = .ok () ∨ db' = db := by
  intro input _
  rcases finish_cases agentID token outcome input with ⟨row, -, -, heffect⟩ | ⟨-, heffect⟩ |
    ⟨e, heffect⟩
  · rw [heffect]
    exact .inl rfl
  · rw [heffect]
    exact .inl rfl
  · rw [heffect]
    exact .inr rfl

/-- `ListExpiredLeases` lists exactly the jobs whose rows have expired. -/
theorem list_expired_leases_run (cutoff now : Time) :
    ∃ ids, ((listExpiredLeases cutoff).run effect (fun _ => { now := now }) db).value = .ok ids ∧
      ∀ id, id ∈ ids ↔ ∃ row, db.lookup id = some row ∧ row.Expired now :=
  ⟨_, rfl, fun _ => mem_expired_iff⟩

end PGStore

/-- A `TryClaim` that returned a token returned the one after that of the row. -/
theorem row_of_claim {db db' : DemandJobs} {id agentID : String} {ttl : Duration}
    {input : Store.Input} {t : Int} {expiry : Time} (hsound : Store.Sound db)
    (hstep : Store.Step db ⟨.tryClaim id agentID ttl, input, .ok (some (t, expiry))⟩ db') :
    ∃ row row', db.lookup id = some row ∧ db'.lookup id = some row' ∧ 0 ≤ row.leaseToken ∧
      t = row.leaseToken + 1 ∧ t < 2 ^ 63 ∧ row'.leaseToken = t := by
  have hrow := row_step hstep id
  generalize hold : db.lookup id = old at hrow
  generalize db'.lookup id = new at hrow
  cases hrow with
  | idle _ _ hidle =>
      refine absurd ?_ hidle
      exact ⟨rfl, _, rfl, fun hnone => (by cases hnone)⟩
  | claim _ _ _ row _ hlt =>
      exact ⟨row, _, rfl, rfl, (hsound id row hold).token_nonneg, rfl, hlt, rfl⟩

end MutualCloud.Store
