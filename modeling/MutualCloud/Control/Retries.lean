import MutualCloud.Control.Grace
import MutualCloud.Control.Server
import MutualCloud.Store.Fencing

/-!
# The retry limit of the control server

`cmd/control/main.go` declares `maxRetry` beside `requeueLoop`, which does not read it, and
`SetStatusQueued` adds to `retry_count` whatever the count is. The leases of a job are numbered by
their tokens. So the limit is kept in every run of the control server in which no lease after the
`maxRetry`-th is left to run out, and a tick of `requeueLoop` passes the limit exactly when its scan
finds such a lease (`retries_bounded_iff`). A sixth expiry is a requeue like the others
(`retries_exceed_limit`).
-/

namespace MutualCloud.Control

open Go KeyedTable Interaction Labelled Store

/-! ## The statements of the control server -/

/-- The statement that a step of the control server sends. -/
def Server.Event.statement : Server.Event → Option Store.Event
  | ⟨.site (.base c), input, response⟩ =>
      Control.Event.statement ⟨c, input.onSite.onWorld, response⟩
  | _ => none

/-- A step acts on the database by the statement that it sends, and not at all without one. -/
theorem Server.statement_step {s s' : Server} {e : Server.Event}
    (h : Answers Server.effect s e s') :
    match e.statement with
    | some statement => Store.Step s.site.world.db statement s'.site.world.db
    | none => s'.site.world.db = s.site.world.db := by
  obtain ⟨call, input, response⟩ := e
  have hresponse : (Server.effect call input s).1 = response := congrArg Prod.fst h
  obtain rfl : (Server.effect call input s).2 = s' := congrArg Prod.snd h
  cases call with
  | site op =>
      cases op with
      | base c =>
          have hworld : Answers Control.effect s.site.world ⟨c, input.onSite.onWorld, response⟩
              (Control.effect c input.onSite.onWorld s.site.world).2 := Prod.ext hresponse rfl
          exact Control.statement_step hworld
      | putJSON | listQueued =>
          simp only [Server.Event.statement, Server.effect, Site.effect]
          split <;> rfl
      | key | intn | announced => rfl
  | listPaged | countByStatus | ws | wsToken | receive | process => rfl

variable {τ : Type}

/-- The statements of an interleaving, oldest first. -/
def statements (history : List (τ × Server.Event)) : List Store.Event :=
  history.filterMap fun l => l.2.statement

/-- The statements of a beginning of a run are a beginning of its statements. -/
theorem statements_initial {before history : List (τ × Server.Event)} (h : before <+: history)
    (earlier : List Store.Event) : earlier ++ statements before <+: earlier ++ statements history :=
  (List.prefix_append_right_inj earlier).mpr (h.filterMap _)

variable [DecidableEq τ]

/-- A control server in the middle of its work. -/
abbrev Server.Running (τ : Type) :=
  Pool τ Server.Op Server.Op.Response Server (Option Answer)

/-- What the control server does to the database is a run of the store. -/
theorem Server.execution_run {earlier : List Store.Event} {history : List (τ × Server.Event)}
    {p q : Server.Running τ} (hrun : Store.Run earlier p.shared.site.world.db)
    (hexec : Execution (Pool.Step Server.effect) p history q) :
    Store.Run (earlier ++ statements history) q.shared.site.world.db := by
  refine hrun.trans ((Pool.shared_execution hexec).simulate (I := fun _ => True)
    (fun s => s.site.world.db) (fun l => Server.Event.statement l.2) trivial
    (fun _ _ _ _ _ => trivial) ?_ ?_)
  · intro s l s' statement _ hstep hsome
    have hstatement := Server.statement_step hstep
    rwa [hsome] at hstatement
  · intro s l s' _ hstep hnone
    have hsame := Server.statement_step hstep
    rwa [hnone] at hsame

/-! ## The limit -/

/-- `maxRetry`, which nothing reads. -/
def maxRetry : Int := 5

/-- The limit is kept for a job on the way through `history`. -/
structure RetriesBounded (id : String) (start : Server.Running τ)
    (history : List (τ × Server.Event)) : Prop where
  /-- In no state of the run is `retry_count` above the limit. -/
  within : ∀ before q row, before <+: history →
    Execution (Pool.Step Server.effect) start before q →
    q.shared.site.world.db.lookup id = some row → row.retryCount ≤ maxRetry
  /-- No step puts the leased job back to the queue once its lease has expired more often than the
  limit, the expiry at hand counted. -/
  spent : ∀ before l q q' row row', before ++ [l] <+: history →
    Execution (Pool.Step Server.effect) start before q → Pool.Step Server.effect q l q' →
    q.shared.site.world.db.lookup id = some row → q'.shared.site.world.db.lookup id = some row' →
    row.status.Active → maxRetry < row.retryCount + 1 → row'.status ≠ .queued

/-- The lease of the job under the token ran out: it was over at the clock of some statement. -/
def RanOut (id : String) (history : List Store.Event) (token : Int) : Prop :=
  ∃ before e after db row, history = before ++ e :: after ∧ Store.Run before db ∧
    db.lookup id = some row ∧ row.leaseToken = token ∧ row.Expired e.input.now

/-- A lease that ran out did so in every longer run. -/
theorem RanOut.mono {id : String} {history longer : List Store.Event} {token : Int}
    (h : RanOut id history token) (hinitial : history <+: longer) : RanOut id longer token := by
  obtain ⟨before, e, after, db, row, rfl, hrest⟩ := h
  obtain ⟨later, rfl⟩ := hinitial
  exact ⟨before, e, after ++ later, db, row, by simp, hrest⟩

/-- The token of a lease that is over is one ahead of the retry counter. -/
theorem token_of_expired {history : List Store.Event} {db : DemandJobs} (h : Store.Run history db)
    {id : String} {row : Row} (hrow : db.lookup id = some row) {now : Time}
    (hexpired : row.Expired now) : row.leaseToken = row.retryCount + 1 := by
  obtain ⟨agentID, hagent⟩ := (h.sound id row hrow).agent_of_expired hexpired
  exact h.token_of_leased hrow (by simp [hagent])

/-- The last requeue of a job was that of the lease whose token the retry counter has. -/
theorem ran_out_of_retries {history : List Store.Event} {db : DemandJobs}
    (h : Store.Run history db) {id : String} {row : Row} (hrow : db.lookup id = some row)
    (hretries : 1 ≤ row.retryCount) : RanOut id history row.retryCount := by
  induction h generalizing row with
  | refl => simp at hrow
  | @snoc before s s' e hbefore hstep ih =>
      have hlonger : before <+: before ++ [e] := List.prefix_append before [e]
      have hrs := row_step hstep id
      generalize hold : s.lookup id = old at hrs
      rw [hrow] at hrs
      generalize hnew : some row = new at hrs
      cases hrs with
      | idle =>
          subst hnew
          exact (ih hold hretries).mono hlonger
      | create job =>
          cases hnew
          exact absurd hretries (by simp [Row.fresh])
      | attach m input row₀ =>
          cases hnew
          exact (ih hold hretries).mono hlonger
      | claim agentID ttl input row₀ =>
          cases hnew
          exact (ih hold hretries).mono hlonger
      | renew agentID token ttl input row₀ =>
          cases hnew
          exact (ih hold hretries).mono hlonger
      | finish agentID token outcome input row₀ =>
          cases hnew
          exact (ih hold hretries).mono hlonger
      | requeue input row₀ hexpired =>
          cases hnew
          have htoken := token_of_expired hbefore hold hexpired
          exact ⟨before, ⟨.setStatusQueued id, input, .ok (1 : ℕ)⟩, [], s, row₀, rfl, hbefore, hold,
            htoken, hexpired⟩

/-- A step that puts a leased job back to the queue counts it. -/
theorem retries_of_queued {p q : Server.Running τ} {l : τ × Server.Event} {id : String}
    {row row' : Row} (hstep : Pool.Step Server.effect p l q)
    (hrow : p.shared.site.world.db.lookup id = some row)
    (hrow' : q.shared.site.world.db.lookup id = some row') (hactive : row.status.Active)
    (hq : row'.status = .queued) : row'.retryCount = row.retryCount + 1 := by
  obtain ⟨_, _, hanswer, _⟩ := hstep
  have hdb := Server.statement_step hanswer
  cases hst : l.2.statement with
  | none =>
      rw [hst] at hdb
      rw [hdb, hrow] at hrow'
      obtain rfl := Option.some.inj hrow'
      exact absurd hq hactive.ne_queued
  | some statement =>
      rw [hst] at hdb
      have hrs := row_step hdb id
      rw [hrow, hrow'] at hrs
      obtain ⟨-, -, -, -, rfl⟩ := requeue_of_queued hrs hactive hq
      rfl

variable {cfg : Config} {interval : Duration} {work : τ → Work} {s : Server}
  {earlier : List Store.Event} {history : List (τ × Server.Event)} {p : Server.Running τ}

/-- The limit is kept in a run in which no lease after the `maxRetry`-th runs out. -/
theorem retries_bounded (hrun : Store.Run earlier s.site.world.db) {id : String}
    (hleases : ∀ token, RanOut id (earlier ++ statements history) token → token ≤ maxRetry) :
    RetriesBounded id (server cfg interval work s) history := by
  have hwithin : ∀ before q row, before <+: history →
      Execution (Pool.Step Server.effect) (server cfg interval work s) before q →
      q.shared.site.world.db.lookup id = some row → row.retryCount ≤ maxRetry := by
    intro before q row hinitial hbefore hrow
    have hreached : Store.Run (earlier ++ statements before) q.shared.site.world.db :=
      Server.execution_run hrun hbefore
    by_cases hretries : 1 ≤ row.retryCount
    · exact hleases _ ((ran_out_of_retries hreached hrow hretries).mono
        (statements_initial hinitial earlier))
    · unfold maxRetry
      omega
  refine ⟨hwithin, ?_⟩
  intro before l q q' row row' hinitial hbefore hstep hrow hrow' hactive hspent hq
  have hnext := hwithin (before ++ [l]) q' row' hinitial (hbefore.snoc hstep) hrow'
  rw [retries_of_queued hstep hrow hrow' hactive hq] at hnext
  omega

/-- The site is a part of the state of the control server. -/
def Server.sitePart : Lens Server Site where
  view := Server.site
  put s site := { s with site := site }
  view_put _ _ := rfl
  put_view _ := rfl
  put_put _ _ _ := rfl

/-- A tick of the control server is one on its world. -/
theorem requeue_work_world (inputs : ℕ → Server.Input) (s : Server) :
    ((Work.requeue.code cfg interval).run Server.effect inputs s).state.site.world =
      (requeueTick.run effect (fun n => (inputs n).onSite.onWorld) s.site.world).state := by
  have hsite : ((Server.lift (Site.lift requeueTick)).run Server.effect inputs s).state =
      { s with site := ((Site.lift requeueTick).run Site.effect (fun n => (inputs n).onSite)
        s.site).state } :=
    Prog.run_embed_state Server.sitePart Server.Input.onSite (fun _ _ _ => rfl) (fun _ _ _ => rfl)
      (Site.lift requeueTick) inputs s
  have hsilent : (Work.requeue.code cfg interval).run Server.effect inputs s =
      (Server.lift (Site.lift requeueTick) >>= fun _ => .done none).run Server.effect inputs s :=
    rfl
  rw [hsilent, Prog.run_bind]
  show ((Server.lift (Site.lift requeueTick)).run Server.effect inputs s).state.site.world = _
  rw [hsite, Site.lift_run_state]

/-- A tick that begins within the limit stays within it exactly when its scan finds no lease after
the `maxRetry`-th that is over. -/
theorem tick_bounded_iff {history : List Store.Event} {w : World} (hrun : Store.Run history w.db)
    {id : String} (hwithin : ∀ row, w.db.lookup id = some row → row.retryCount ≤ maxRetry)
    {inputs : ℕ → Input} (hfault : ∀ n, (inputs n).fault = none)
    (hclock : ∀ n, (inputs 1).now ≤ (inputs (n + 2)).now) :
    (∀ row', (requeueTick.run effect inputs w).state.db.lookup id = some row' →
        row'.retryCount ≤ maxRetry) ↔
      ∀ row, w.db.lookup id = some row → row.Expired (inputs 1).now →
        row.leaseToken ≤ maxRetry := by
  constructor
  · intro hafter row hrow hexpired
    have hle := hwithin row hrow
    have hroom : row.retryCount + 1 < 2 ^ 31 := by
      unfold maxRetry at hle
      omega
    have hnext := hafter row.requeued (by
      rw [tick_rows hfault hclock, hrow, Option.map_some, swept, if_pos ⟨hexpired, hroom⟩])
    rw [token_of_expired hrun hrow hexpired]
    exact hnext
  · intro hleases row' hrow'
    rw [tick_rows hfault hclock] at hrow'
    obtain ⟨row, hrow, rfl⟩ := Option.map_eq_some_iff.mp hrow'
    unfold swept
    split
    next hswept =>
      show row.retryCount + 1 ≤ maxRetry
      rw [← token_of_expired hrun hrow hswept.1]
      exact hleases row hrow hswept.1
    next => exact hwithin row hrow

/-- The retry limit. The control server runs any requests and any passes of its loops in any
interleaving, on a table that the store reached. The limit is kept for a job along the run if no
lease of the job after the `maxRetry`-th runs out. After a run that has kept the limit, a tick of
`requeueLoop` on its own, when no statement fails and the clock of the database does not go back
while it runs, keeps it if and only if no such lease is over at the time of its scan. -/
theorem retries_bounded_iff (hrun : Store.Run earlier s.site.world.db)
    (hexec : Execution (Pool.Step Server.effect) (server cfg interval work s) history p)
    (id : String) :
    ((∀ token, RanOut id (earlier ++ statements history) token → token ≤ maxRetry) →
      RetriesBounded id (server cfg interval work s) history) ∧
    (RetriesBounded id (server cfg interval work s) history →
      ∀ inputs : ℕ → Server.Input, (∀ n, (inputs n).fault = none) →
        (∀ n, (inputs 1).now ≤ (inputs (n + 2)).now) →
        ((∀ row, ((Work.requeue.code cfg interval).run Server.effect inputs
            p.shared).state.site.world.db.lookup id = some row → row.retryCount ≤ maxRetry) ↔
          ∀ row, p.shared.site.world.db.lookup id = some row → row.Expired (inputs 1).now →
            row.leaseToken ≤ maxRetry)) := by
  refine ⟨fun hleases => retries_bounded hrun hleases, ?_⟩
  intro hbounded inputs hfault hclock
  rw [requeue_work_world]
  refine tick_bounded_iff (Server.execution_run hrun hexec) ?_ hfault hclock
  exact fun row hrow => hbounded.within history p row (List.prefix_refl history) hexec hrow

namespace Sample

/-- A request to the control server at a path, by an agent where it asks for one. -/
def sent (path : String) : Incoming where
  method := "POST"
  path := path
  header _ := ""
  query _ := ""
  body := {
    finish := .error "EOF"
    tryClaim := .ok ⟨"agent", 15⟩
    heartbeat := .error "EOF"
    release := .error "EOF"
    create := posted.body
    manifest := .error "EOF" }

/-- A job is created. Then, in turn, an agent claims it for 15 seconds and the requeue loop
ticks. -/
def lapses (i : ℕ) : Work :=
  if i = 0 then .request (sent "/api/tasks")
  else if i % 2 = 1 then .request (sent "/api/tasks/job/try-claim")
  else .requeue

/-- A step at which nothing fails. -/
def fair (now : Time) : Server.Input := { now := now, order := ⟨id, List.Perm.refl⟩ }

/-- A claim, and a tick 19 seconds later. -/
def lapse (n : ℕ) : List (ℕ × Server.Input) :=
  List.replicate 8 (2 * n + 1, fair (n * (20 * second))) ++
    List.replicate 8 (2 * n + 2, fair (n * (20 * second) + 19 * second))

/-- The control server on an empty table. -/
def blank : Server := ⟨Site.empty, fun _ => ⟨none, none⟩, fun _ => ⟨none, none⟩⟩

/-- The agent lets its lease lapse so many times. -/
def lapsed (times : ℕ) : List (ℕ × Server.Event) × Server.Running ℕ :=
  Server.after setup (3 * second) lapses
    (List.replicate 12 (0, fair 0) ++ (List.range times).flatMap lapse) blank

theorem lapsed_execution (times : ℕ) :
    Execution (Pool.Step Server.effect) (server setup (3 * second) lapses blank) (lapsed times).1
      (lapsed times).2 :=
  Pool.schedule_execution _ _ _

end Sample

/-- In the run with five expiries the job is claimed five times. -/
theorem Sample.lapsed_token {before : List Store.Event} {db : DemandJobs} {row : Row}
    (h : Store.Run before db) (hinitial : before <+: statements (Sample.lapsed 5).1)
    (hrow : db.lookup "job" = some row) : row.leaseToken ≤ maxRetry := by
  have hissued : (issuedTokens "job" (statements (Sample.lapsed 5).1)).length = 5 := by
    decide +kernel
  have hlength : (issuedTokens "job" before).length ≤ 5 := by
    rw [← hissued]
    exact (hinitial.sublist.filterMap _).length_le
  have htoken := h.issued_length hrow
  unfold maxRetry
  omega

/-- Five expiries are within the limit, and a tick after them keeps it. -/
theorem retries_bounded_iff_five :
    ((Sample.lapsed 5).2.shared.site.world.db.lookup "job").map Row.retryCount = some 5 ∧
      RetriesBounded "job" (server Sample.setup (3 * second) Sample.lapses Sample.blank)
        (Sample.lapsed 5).1 ∧
      ∀ row, ((Work.requeue.code Sample.setup (3 * second)).run Server.effect
        (fun _ => Sample.fair (200 * second)) (Sample.lapsed 5).2.shared).state.site.world.db.lookup
          "job" = some row → row.retryCount ≤ maxRetry := by
  have hempty : Store.Run [] Sample.blank.site.world.db := .refl
  obtain ⟨hrun, htick⟩ := retries_bounded_iff hempty (Sample.lapsed_execution 5) "job"
  have hbounded := hrun fun token hran => by
    obtain ⟨before, e, after, db, row, heq, hbefore, hrow, rfl, -⟩ := hran
    exact Sample.lapsed_token hbefore ⟨e :: after, heq.symm⟩ hrow
  refine ⟨by decide +kernel, hbounded, ?_⟩
  refine (htick hbounded (fun _ => Sample.fair (200 * second)) (fun _ => rfl)
    fun _ => le_refl _).mpr fun row hrow _ => ?_
  exact Sample.lapsed_token (Server.execution_run hempty (Sample.lapsed_execution 5))
    (List.prefix_refl _) hrow

/-- The sixth expiry is a requeue like the others, and the counter passes the limit. -/
theorem retries_exceed_limit :
    ((Sample.lapsed 6).2.shared.site.world.db.lookup "job").map
        (fun row => (row.status, row.retryCount)) = some (.queued, 6) ∧
      ¬ RetriesBounded "job" (server Sample.setup (3 * second) Sample.lapses Sample.blank)
        (Sample.lapsed 6).1 := by
  have hend : ((Sample.lapsed 6).2.shared.site.world.db.lookup "job").map
      (fun row => (row.status, row.retryCount)) = some (.queued, 6) := by decide +kernel
  refine ⟨hend, ?_⟩
  intro hbounded
  obtain ⟨row, hrow, hretries⟩ := Option.map_eq_some_iff.mp hend
  have hsix : row.retryCount = 6 := congrArg Prod.snd hretries
  have hle : row.retryCount ≤ 5 :=
    hbounded.within _ _ row (List.prefix_refl _) (Sample.lapsed_execution 6) hrow
  omega

end MutualCloud.Control
