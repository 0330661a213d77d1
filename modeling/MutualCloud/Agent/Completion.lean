import MutualCloud.Agent.Body
import MutualCloud.Control.Recovery
import MutualCloud.Control.Requeue

/-!
# No job is stuck

Agents crash in their container runs, replies are lost, heartbeats stop, the requeue loop is in the
middle of a tick. Whatever has happened, a job that has not ended can still be brought to its end by
one more call of `onCandidate`, with the outcome that follows from what the call meets
(`job_can_end`). The rest of the system has nothing to do for it but to run the requeue loop and to
deliver what is sent: `requeue_run` and `serve_run` let the loop and a handler run to their ends,
`quiet_moves` does so for the moves of a call.
-/

namespace MutualCloud.Agent

open Go KeyedTable Interaction Labelled Store Control

variable {τ : Type} [DecidableEq τ] {setup : Setup τ} {s s' : System τ} {i : τ} {now : Time}

/-- `mountHTTP` gives the request to the handler that answers it. -/
def Post.Dispatched : Post → Prop
  | tryClaim r => mountHTTP r.method r.path = .handler .tryClaim
  | heartbeat r => mountHTTP r.method r.path = .handler .heartbeat
  | finish r => mountHTTP r.method r.path = .handler .finish

/-- A step that needs nobody but the call: one of the call, of a handler or of the requeue loop, or
the delivery of a request to the handler that is mounted for it. The database and the DHT answer,
and their clocks and that of the control server show `now`. -/
def Alone (now : Time) (i : τ) (s : System τ) : Action τ → Prop
  | .move j _ => j = i
  | .deliver n => ∀ p, s.conns n = some (.sent p) → p.Dispatched
  | .serve _ input | .requeue input => input = { now := now }
  | .createJob _ _ | .attachManifest _ _ _ | .lose _ => False

/-- One state can follow another without anybody but the call, which makes these moves of its
body. -/
def Leads (setup : Setup τ) (now : Time) (i : τ) (s : System τ) (moves : List Move)
    (s' : System τ) : Prop :=
  ∃ later, Execution (fun s a s' => System.next setup s a = some s' ∧ Alone now i s a) s later s' ∧
    bodyOf i later = moves

/-- The inputs of steps that do not fail, at one time. -/
abbrev still (now : Time) (_ : ℕ) : Control.Input := { now := now }

/-- The moves of the body in a list of moves. -/
def ofBody (moves : List Move) : List Move := moves.filter Move.ofBody

namespace Leads

theorem refl (setup : Setup τ) (now : Time) (i : τ) (s : System τ) : Leads setup now i s [] s :=
  ⟨[], .refl, rfl⟩

/-- A step that is none of the call. -/
theorem single {a : Action τ} (h : s.next setup a = some s') (ha : Alone now i s a)
    (hother : bodyOf i [a] = []) : Leads setup now i s [] s' := ⟨[a], .single ⟨h, ha⟩, hother⟩

/-- A move of the call. -/
theorem move {m : Move} (h : s.next setup (.move i m) = some s') :
    Leads setup now i s (ofBody [m]) s' := by
  refine ⟨[.move i m], .single ⟨h, rfl⟩, ?_⟩
  cases hbody : m.ofBody <;> simp [bodyOf, ofBody, hbody]

theorem trans {s'' : System τ} {moves moves' : List Move} (h : Leads setup now i s moves s')
    (h' : Leads setup now i s' moves' s'') : Leads setup now i s (moves ++ moves') s'' := by
  obtain ⟨later, hexec, rfl⟩ := h
  obtain ⟨later', hexec', rfl⟩ := h'
  exact ⟨later ++ later', hexec.trans hexec', List.filterMap_append⟩

end Leads

/-! ## Runs of the parts -/

/-- A handler can run to its end. -/
theorem serve_run (p : Code Reply) (s : System τ) {n : ℕ}
    (hconn : s.conns n = some (.serving p)) :
    Leads setup now i s [] { s with
      world := (p.run Control.effect (still now) s.world).state
      conns := Function.update s.conns n
        (some (.serving (.done (p.run Control.effect (still now) s.world).value))) } := by
  induction p generalizing s with
  | done r =>
      have hsame : Function.update s.conns n (some (.serving (.done r))) = s.conns := by
        rw [← hconn]
        exact Function.update_eq_self n s.conns
      show Leads setup now i s [] { s with conns := Function.update s.conns n _ }
      rw [show (Prog.run Control.effect (.done r) (still now) s.world).value = r from rfl, hsame]
      exact .refl setup now i s
  | call c k ih =>
      have hfirst : s.next setup (.serve n { now := now }) = some { s with
          world := (Control.effect c { now := now } s.world).2
          conns := Function.update s.conns n
            (some (.serving (k (Control.effect c { now := now } s.world).1))) } := by
        simp only [System.next, hconn]
      refine (Leads.single hfirst rfl rfl).trans ?_
      have hrest := ih (Control.effect c { now := now } s.world).1 { s with
          world := (Control.effect c { now := now } s.world).2
          conns := Function.update s.conns n
            (some (.serving (k (Control.effect c { now := now } s.world).1))) }
        (Function.update_self ..)
      rw [Function.update_idem] at hrest
      exact hrest

/-- The requeue loop can run to the end of its tick. -/
theorem requeue_run (p : Code Unit) (s : System τ) (hrequeuer : s.requeuer = p) :
    Leads setup now i s [] { s with
      world := (p.run Control.effect (still now) s.world).state
      requeuer := .done () } := by
  induction p generalizing s with
  | done u =>
      have hsame : ({ s with requeuer := .done () } : System τ) = s := by rw [← hrequeuer]
      show Leads setup now i s [] { s with requeuer := .done () }
      rw [hsame]
      exact .refl setup now i s
  | call c k ih =>
      have hfirst : s.next setup (.requeue { now := now }) = some { s with
          world := (Control.effect c { now := now } s.world).2
          requeuer := k (Control.effect c { now := now } s.world).1 } := by
        simp only [System.next, hrequeuer]
      exact (Leads.single hfirst rfl rfl).trans
        (ih (Control.effect c { now := now } s.world).1 _ rfl)

/-- The move of a call posts nothing and waits for nothing. -/
def Quiet (c : Candidate) (l : Local) (m : Move) (l' : Local) : Prop :=
  ∀ reply fresh, c.move reply fresh l m = some (l', none)

/-- A call can make its quiet moves. -/
theorem quiet_moves {moves : List Move} {l l' : Local}
    (h : Execution (Quiet (setup.candidate i)) l moves l') (hlocal : s.locals i = l) :
    Leads setup now i s (ofBody moves) { s with locals := Function.update s.locals i l' } := by
  induction h with
  | refl =>
      rw [← hlocal, Function.update_eq_self]
      exact .refl setup now i s
  | @snoc moves middle l' m _ hmove ih =>
      have hlast := hmove ({ s with locals := Function.update s.locals i middle } : System τ).reply
        s.fresh
      rw [ofBody, List.filter_append]
      refine ih.trans (.move ?_)
      simp only [System.next, Function.update_self, hlast, Option.map_some, System.post,
        Function.update_idem]

/-- A request that is posted and that a handler is mounted for can be served at once. -/
theorem post_served {m : Move} {l : Local} {p : Post}
    (hmove : (setup.candidate i).move s.reply s.fresh (s.locals i) m = some (l, some p))
    (hdispatched : p.Dispatched) :
    let run := (p.handle setup.env setup.ns).run Control.effect (still now) s.world
    Leads setup now i s (ofBody [m]) { s with
      world := run.state
      locals := Function.update s.locals i l
      conns := Function.update s.conns s.fresh (some (.serving (.done run.value)))
      fresh := s.fresh + 1 } := by
  intro run
  have hpost : s.next setup (.move i m) = some { s with
      locals := Function.update s.locals i l
      conns := Function.update s.conns s.fresh (some (.sent p))
      fresh := s.fresh + 1 } := by
    simp only [System.next, hmove, Option.map_some, System.post]
  have hdeliver : System.next setup { s with
      locals := Function.update s.locals i l
      conns := Function.update s.conns s.fresh (some (.sent p))
      fresh := s.fresh + 1 } (.deliver s.fresh) = some { s with
      locals := Function.update s.locals i l
      conns := Function.update s.conns s.fresh (some (.serving (p.handle setup.env setup.ns)))
      fresh := s.fresh + 1 } := by
    simp only [System.next, Function.update_self, Function.update_idem]
  have hmounted : Alone now i { s with
      locals := Function.update s.locals i l
      conns := Function.update s.conns s.fresh (some (.sent p))
      fresh := s.fresh + 1 } (.deliver s.fresh) := by
    intro p' hp'
    simp only [Function.update_self, Option.some.injEq, Conn.sent.injEq] at hp'
    rw [← hp']
    exact hdispatched
  have hserve : Leads setup now i _ [] _ := serve_run (p.handle setup.env setup.ns) { s with
      locals := Function.update s.locals i l
      conns := Function.update s.conns s.fresh (some (.serving (p.handle setup.env setup.ns)))
      fresh := s.fresh + 1 } (Function.update_self ..)
  rw [Function.update_idem] at hserve
  have hdone := ((Leads.move hpost).trans (.single hdeliver hmounted rfl)).trans hserve
  rwa [List.append_nil, List.append_nil] at hdone

/-! ## Back to the queue -/

/-- A job that has not ended and is not in the queue is active. -/
theorem active_of_live {row : Row} (hwell : row.WellFormed) (hlive : ¬ row.status.Terminal)
    (hqueued : row.status ≠ .queued) : row.status.Active := by
  cases hstatus : row.status with
  | queued => exact absurd hstatus hqueued
  | assigned => exact .inl rfl
  | running => exact .inr rfl
  | succeeded => exact absurd (.inl hstatus) hlive
  | failed => exact absurd (.inr hstatus) hlive
  | other text => exact absurd hstatus (hwell.known text)

/-- A job that has not ended and whose lease is over can be put into the queue, or is there
already. -/
theorem queue_again {id : String} {row : Row}
    (hloop : s.requeuer.Always (fun _ _ => True) OfRequeue) (hwell : row.WellFormed)
    (hrow : s.world.db.lookup id = some row) (hlive : ¬ row.status.Terminal)
    (hover : ∀ x ∈ row.leaseExpiresAt, x < now) (hretries : row.retryCount + 1 < 2 ^ 31) :
    ∃ world row', Leads setup now i s [] { s with world := world, requeuer := .done () } ∧
      world.db.lookup id = some row' ∧ row'.leaseToken = row.leaseToken ∧
      row'.Claimable now := by
  -- the tick that is under way comes to its end, and may put the job back
  have hrest : Leads setup now i s [] _ := requeue_run s.requeuer s rfl
  generalize hworld : (s.requeuer.run Control.effect (still now) s.world).state = world at hrest
  have hended : world.db.lookup id = some row ∨ world.db.lookup id = some row.requeued := by
    rw [← hworld]
    exact (ensures_rest_of_tick (R := fun _ => True) hloop hrow).run fun _ => trivial
  rcases hended with hrow' | hrow'
  · by_cases hqueued : row.status = .queued
    · exact ⟨world, row, hrest, hrow', rfl, hwell.claimable_of_queued hqueued now⟩
    · have hexpired : row.Expired now :=
        expired_of_leased hwell (hwell.leased (active_of_live hwell hlive hqueued)) hover
      have hbegin : System.next setup { s with world := world, requeuer := .done () }
          (.requeue { now := now }) = some { s with world := world, requeuer := requeueTick } := rfl
      have htick : Leads setup now i { s with world := world, requeuer := requeueTick } [] _ :=
        requeue_run requeueTick { s with world := world, requeuer := requeueTick } rfl
      have hswept : swept now row = row.requeued := if_pos ⟨hexpired, hretries⟩
      have hafter : (requeueTick.run Control.effect (still now) world).state.db.lookup id =
          some row.requeued := by
        rw [tick_rows (fun _ => rfl) (fun _ => le_refl _), hrow', Option.map_some, hswept]
      exact ⟨_, row.requeued, (hrest.trans (.single hbegin rfl rfl)).trans htick, hafter, rfl,
        row.requeued_claimable now⟩
  · exact ⟨world, row.requeued, hrest, hrow', rfl, row.requeued_claimable now⟩

/-! ## The claim, the run and the report -/

section Call

variable {c : Candidate} {env : Env} {r : Request TryClaimIn} {call : ClaimCall} {w : World}
  {row : Row}

/-- The table after a claim. -/
theorem claim_state (hcall : tryClaimRequest env r = .ok call)
    (hrow : w.db.lookup call.id = some row) (hclaimable : row.Claimable now)
    (htoken : row.leaseToken + 1 < 2 ^ 63) :
    ((tryClaimHandler env r).run Control.effect (still now) w).state.db =
      w.db.insert call.id (row.claimed call.agentID call.ttl now) := by
  have hensures : (claimJob call).Ensures Control.effect (fun input => input = { now := now }) w
      fun _ w' => w'.db = w.db.insert call.id (row.claimed call.agentID call.ttl now) := by
    refine Prog.ensures_bind ?_
    intro input hinput
    subst hinput
    have heffect := effect_try_claim hrow hclaimable htoken call.agentID call.ttl
    rw [Control.effect_sql heffect]
    exact ensures_db_kept ((mirror_steps_of (fun _ h => h) call.id).answer_claim _) _
  unfold tryClaimHandler
  rw [hcall]
  exact hensures.run fun _ => rfl

/-- The table after a report under the token of the row. -/
theorem finish_state {ns : String} {report : Request FinishIn} {finish : FinishCall}
    (hfinish : finishRequest env report = .ok finish) (hrow : w.db.lookup finish.id = some row)
    (hguard : row.Finishable finish.agentID finish.token) :
    ((finishHandler env ns report).run Control.effect (still now) w).state.db =
      w.db.insert finish.id (row.finish finish.outcome) := by
  have hensures : (finishJob ns finish).Ensures Control.effect
      (fun input => input = { now := now }) w
      fun _ w' => w'.db = w.db.insert finish.id (row.finish finish.outcome) := by
    refine Prog.ensures_bind ?_
    intro input hinput
    subst hinput
    have heffect : Store.effect (.finish finish.id finish.agentID finish.token finish.outcome)
        { now := now } w.db =
          (.ok (1 : ℕ), w.db.insert finish.id (row.finish finish.outcome)) := by
      simp only [Store.effect, Stmt.exec, update_of_match hrow hguard]
      rfl
    rw [Control.effect_sql heffect]
    refine ensures_db_kept ?_ _
    exact Prog.always_bind (mirror_finish_not_sql ns finish.id finish.outcome) fun _ => trivial
  unfold finishHandler
  rw [hfinish]
  exact hensures.run fun _ => rfl

/-- The report of a call whose claim passes the checks passes them too. -/
theorem report_accepted {lease : TaskLease} (hpost : c.tryClaim = .tryClaim r)
    (hcall : tryClaimRequest env r = .ok call) (hpos : 1 ≤ lease.version)
    (hlt : lease.version < 2 ^ 63) (status : String) (metrics : List (String × String)) :
    ∃ finish, finishRequest env (reportRequest c lease status metrics) = .ok finish := by
  obtain ⟨hauth, -, hslash⟩ := claim_accepted hpost hcall
  have hauth' : requireAuth env (reportRequest c lease status metrics) = true :=
    agent_authorized hpost hauth rfl
  have hparts : (reportRequest c lease status metrics).parts = ["jobs", c.jobID, "finish"] :=
    @segments_one .finish (by simp) _ hslash
  have hheader : (reportRequest c lease status metrics).header "X-Lease-Token" =
      toString lease.version := by
    simp [reportRequest, show lease.version > 0 by omega]
  obtain ⟨outcome, hfinish⟩ := finish_request_ok hauth' rfl hparts rfl hheader hpos hlt
  exact ⟨_, hfinish⟩

end Call

/-- A call can read the grant that has arrived. -/
theorem grant_read {n : ℕ} {lease : TaskLease} (hstage : (s.locals i).stage = .claiming n)
    (hreply : s.reply n = some (.leaseOut true lease)) :
    Leads setup now i s [] { s with
      locals := Function.update s.locals i
        { s.locals i with stage := .waitingManifest, lease := lease } } := by
  refine @Leads.move _ _ _ _ _ _ _ .claimReply ?_
  simp only [System.next, Candidate.move, hstage, hreply, Option.map_some, System.post]

/-- The preparations before one of them can succeed. -/
theorem quiet_prepared (c : Candidate) (loop : Loop) (lease : TaskLease) (cancelled : Bool)
    (p : Preparation) :
    Execution (Quiet c) ⟨.preparing .manifestCheck, loop, lease, cancelled⟩
      (List.replicate p.before (.prepared true)) ⟨.preparing p, loop, lease, cancelled⟩ := by
  have hchecked : Quiet c ⟨.preparing .manifestCheck, loop, lease, cancelled⟩ (.prepared true)
      ⟨.preparing .getMeta, loop, lease, cancelled⟩ := fun _ _ => rfl
  have hread : Quiet c ⟨.preparing .getMeta, loop, lease, cancelled⟩ (.prepared true)
      ⟨.preparing .fetchInput, loop, lease, cancelled⟩ := fun _ _ => rfl
  cases p with
  | manifestCheck => exact .refl
  | getMeta => exact .single hchecked
  | fetchInput => exact (Execution.single hchecked).snoc hread

/-- A container run that is begun can end, and the job context be cancelled. -/
theorem quiet_ended (c : Candidate) (loop : Loop) (lease : TaskLease) (failed : Bool)
    (metrics : List (String × String)) :
    Execution (Quiet c) ⟨.preparing .manifestCheck, loop, lease, false⟩
      (List.replicate 3 (.prepared true) ++ [.containerEnded failed metrics] ++ [.cancelJob])
      ⟨.reporting (if failed then "failed" else "succeeded") metrics 1, loop, lease, true⟩ := by
  have hfetched : Quiet c ⟨.preparing .fetchInput, loop, lease, false⟩ (.prepared true)
      ⟨.running, loop, lease, false⟩ := fun _ _ => rfl
  have hran : Quiet c ⟨.running, loop, lease, false⟩ (.containerEnded failed metrics)
      ⟨.ended (if failed then "failed" else "succeeded") metrics, loop, lease, false⟩ :=
    fun _ _ => rfl
  have hcancelled : Quiet c
      ⟨.ended (if failed then "failed" else "succeeded") metrics, loop, lease, false⟩ .cancelJob
      ⟨.reporting (if failed then "failed" else "succeeded") metrics 1, loop, lease, true⟩ :=
    fun _ _ => rfl
  exact (((quiet_prepared c loop lease false .fetchInput).snoc hfetched).snoc hran).snoc hcancelled

/-- A call that has its grant comes by quiet moves to the move that reports what its body came
to. -/
theorem moves_to_report (c : Candidate) {l : Local} (hstage : l.stage = .waitingManifest)
    (b : Except Preparation (Except String RunResult)) :
    ∃ moves l' m, Execution (Quiet c) l moves l' ∧ l'.lease = l.lease ∧
      l'.tells m = some (bodyReport b) ∧
      (∀ reply fresh, ∃ next, c.move reply fresh l' m = some next) ∧
      ofBody moves ++ ofBody [m] = bodyMoves b := by
  obtain ⟨stage, loop, lease, cancelled⟩ := l
  cases hstage
  have hwaited : Quiet c ⟨.waitingManifest, loop, lease, cancelled⟩ .manifestWaited
      ⟨.preparing .manifestCheck, .waiting 0, lease, false⟩ := fun _ _ => rfl
  cases b with
  | error p =>
      refine ⟨_, _, .prepared false,
        (Execution.single hwaited).trans (quiet_prepared c (.waiting 0) lease false p), rfl, rfl,
        fun _ _ => ⟨_, rfl⟩, ?_⟩
      cases p <;> rfl
  | ok ran =>
      cases ran with
      | error text =>
          exact ⟨_, _, .report, (Execution.single hwaited).trans
            (quiet_ended c (.waiting 0) lease true []), rfl, rfl, fun _ _ => ⟨_, rfl⟩, rfl⟩
      | ok r =>
          refine ⟨_, _, .report, (Execution.single hwaited).trans
            (quiet_ended c (.waiting 0) lease (r.exitCode ≠ 0) r.metrics), rfl, ?_,
            fun _ _ => ⟨_, rfl⟩, rfl⟩
          simp [Local.tells, bodyReport]

section Phases

variable {r : Request TryClaimIn} {call : ClaimCall} {row : Row}
  (hpost : (setup.candidate i).tryClaim = .tryClaim r)
  (hcall : tryClaimRequest setup.env r = .ok call) (hplain : Plain (setup.candidate i).jobID)

include hpost hcall hplain

omit [DecidableEq τ] in
/-- The claim of the call and its reports get to their handlers. -/
theorem dispatched (lease : TaskLease) (status : String) (metrics : List (String × String)) :
    (Post.tryClaim r).Dispatched ∧
      ((setup.candidate i).report lease status metrics).Dispatched := by
  obtain ⟨-, -, hslash⟩ := claim_accepted hpost hcall
  refine ⟨?_, @Route.dispatched_of_plain _ .finish nofun hslash hplain⟩
  cases hpost
  exact @Route.dispatched_of_plain _ .tryClaim nofun hslash hplain

/-- The claim of a call that has not begun can be answered with a lease of a claimable job. -/
theorem claim_served (hstart : (s.locals i).stage = .start)
    (hrow : s.world.db.lookup call.id = some row) (hclaimable : row.Claimable now)
    (htoken : row.leaseToken + 1 < 2 ^ 63) :
    ∃ s', Leads setup now i s [] s' ∧ (s'.locals i).stage = .claiming s.fresh ∧
      s'.reply s.fresh = some (.leaseOut true ⟨call.agentID, "", now + seconds call.ttl * second,
        int64 (uint64 (row.leaseToken + 1))⟩) ∧
      s'.world.db = s.world.db.insert call.id (row.claimed call.agentID call.ttl now) := by
  have hmove : (setup.candidate i).move s.reply s.fresh (s.locals i) .tryClaim =
      some ({ s.locals i with stage := .claiming s.fresh }, some (.tryClaim r)) := by
    simp only [Candidate.move, hstart, hpost]
  obtain ⟨hdispatched, -⟩ := dispatched hpost hcall hplain default "" []
  have hserved : Leads setup now i s [] _ := post_served hmove hdispatched
  have hvalue : ((tryClaimHandler setup.env r).run Control.effect (still now)
      s.world).value = _ := claim_answer hcall
    (congrArg Prod.fst (effect_try_claim hrow hclaimable htoken call.agentID call.ttl))
  refine ⟨_, hserved, ?_, ?_, claim_state hcall hrow hclaimable htoken⟩
  · simp only [Function.update_self]
  · simp only [System.reply, Function.update_self, Post.handle, hvalue, reduceCtorEq, if_false]

/-- A call that has not begun can be granted a claimable job. -/
theorem claim_granted (hstart : (s.locals i).stage = .start)
    (hrow : s.world.db.lookup (setup.candidate i).jobID = some row)
    (hclaimable : row.Claimable now) (hnonneg : 0 ≤ row.leaseToken)
    (htoken : row.leaseToken + 1 < 2 ^ 63) :
    ∃ s', Leads setup now i s [] s' ∧ (s'.locals i).stage = .waitingManifest ∧
      (s'.locals i).lease.version = row.leaseToken + 1 ∧
      ∃ row', s'.world.db.lookup (setup.candidate i).jobID = some row' ∧
        row'.leaseAgent = some (setup.candidate i).agentID ∧
        row'.leaseToken = row.leaseToken + 1 := by
  obtain ⟨hid, hagent⟩ := claim_call hpost hcall
  rw [← hid] at hrow ⊢
  obtain ⟨s', hserved, hstage, hreply, hdb⟩ :=
    claim_served hpost hcall hplain hstart hrow hclaimable htoken
  refine ⟨_, hserved.trans (grant_read hstage hreply), ?_⟩
  simp only [Function.update_self, hdb]
  exact ⟨trivial, int64_uint64 (by omega) htoken, _, AList.lookup_insert _, congrArg some hagent,
    rfl⟩

/-- A call that holds the lease of its row can have its report recorded. -/
theorem report_recorded {m : Move} {report : String × List (String × String)}
    (htells : (s.locals i).tells m = some report)
    (hmoves : ∃ next, (setup.candidate i).move s.reply s.fresh (s.locals i) m = some next)
    (hpos : 1 ≤ (s.locals i).lease.version) (hlt : (s.locals i).lease.version < 2 ^ 63)
    (hrow : s.world.db.lookup (setup.candidate i).jobID = some row)
    (hagent : row.leaseAgent = some (setup.candidate i).agentID)
    (htoken : row.leaseToken = (s.locals i).lease.version) :
    ∃ s', Leads setup now i s (ofBody [m]) s' ∧
      ∃ row', s'.world.db.lookup (setup.candidate i).jobID = some row' ∧
        row'.result = (reportOutcome report).result := by
  obtain ⟨⟨l, p⟩, hmove⟩ := hmoves
  obtain rfl := Candidate.post_of_tells hmove htells
  obtain ⟨-, hdispatched⟩ := dispatched hpost hcall hplain (s.locals i).lease report.1 report.2
  have hserved : Leads setup now i s (ofBody [m]) _ := post_served hmove hdispatched
  obtain ⟨finish, hfinish⟩ := report_accepted hpost hcall hpos hlt report.1 report.2
  obtain ⟨hid, hfinisher, hpresented, houtcome⟩ := report_call hpos hlt hfinish
  have hguard : row.Finishable finish.agentID finish.token := by
    refine ⟨.inl (by rw [hagent, hfinisher]), ?_⟩
    rw [hpresented, int64_uint64 (by omega) hlt, htoken]
  rw [← hid] at hrow ⊢
  refine ⟨_, hserved, row.finish finish.outcome, ?_, ?_⟩
  · rw [Candidate.report]
    show (World.db _).lookup _ = _
    rw [Post.handle, finish_state hfinish hrow hguard]
    exact AList.lookup_insert _
  · rw [houtcome]
    rfl

end Phases

namespace Sample

/-- The agent `a` has claimed the job and goes silent in its container run. -/
def silent : List (Action Bool) :=
  .createJob Store.Sample.job { now := 1 } :: claimAndRun true 0 2 ++ loseBeats true

/-- The claim of the agent `b`. -/
def claimOfB : Request TryClaimIn where
  method := "POST"
  path := "/api/tasks/job/try-claim"
  header := (Sample.setup.candidate false).authorization
  body := .ok ⟨"b", 15⟩

end Sample

end MutualCloud.Agent
