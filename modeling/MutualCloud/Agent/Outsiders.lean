import MutualCloud.Agent.Outcomes
import MutualCloud.Control.Authorization

/-!
# Agents without the token

An agent whose token is not that of the control server goes through the same motions as the others:
it discovers jobs and claims them. Its claims are refused before they reach the store, unless
`MC_DISABLE_AUTH` is 1. So in every execution its calls end where they began, without a lease and
without a container run, and every result on record is what a call with the token reported
(`outsiders_idle`).
-/

namespace MutualCloud.Agent

open Go KeyedTable Interaction Labelled Store Control

variable {τ : Type} [DecidableEq τ] {setup : Setup τ} {s s' : System τ}
  {history : List (Action τ × Option Store.Event)} {l : Action τ × Option Store.Event}
  {token : τ → Option Int} {tells : τ → Option Outcome}

/-- The call has another token than the control server, or the server has none. -/
def Outsider (setup : Setup τ) (i : τ) : Prop :=
  setup.env.controlToken = "" ∨ (setup.candidate i).token ≠ setup.env.controlToken

omit [DecidableEq τ] in
/-- The handler of the claim of an outsider has ended before it began. -/
theorem Outsider.claim_refused {i : τ} (h : Outsider setup i)
    (hauth : setup.env.disableAuth ≠ "1") :
    (setup.candidate i).tryClaim.handle setup.env setup.ns =
      .done (.error 401 "unauthorized") := by
  refine try_claim_unauthorized (require_auth_eq_false hauth (h.imp_right ?_))
  intro hother hheader
  have hbearer : (if (setup.candidate i).token ≠ "" then
      "Bearer " ++ (setup.candidate i).token else "") = "Bearer " ++ setup.env.controlToken := by
    simpa [Candidate.authorization] using hheader
  split at hbearer
  · exact hother (String.append_right_inj _ |>.mp hbearer)
  · have hlength := congrArg String.length hbearer
    have hword : "Bearer ".length = 7 := rfl
    rw [String.length_append, hword] at hlength
    have hempty : "".length = 0 := rfl
    omega

/-- Where the call of an outsider can be: it has no lease, and if it waits for the reply to its
claim, that reply is a refusal. -/
structure Idle (setup : Setup τ) (s : System τ) (i : τ) : Prop where
  lease : (s.locals i).lease.version = 0
  stage : (s.locals i).stage = .start ∨ (s.locals i).stage = .done ∨
    ∃ n, (s.locals i).stage = .claiming n ∧ n < s.fresh ∧
      ∀ code, s.pending setup n = some code → code = .done (.error 401 "unauthorized")

omit [DecidableEq τ] in
/-- An idle call has no lease. -/
theorem Idle.not_claimed {i : τ} (h : Idle setup s i) : ¬ (s.locals i).stage.Claimed := by
  rcases h.stage with hstage | hstage | ⟨n, hstage, -⟩ <;> simp [hstage, Stage.Claimed]

/-- A refusal that is under way stays one. -/
theorem refusal_step {a : Action τ} (h : s.next setup a = some s') {n : ℕ} (hn : n < s.fresh)
    (hrefused : ∀ code, s.pending setup n = some code → code = .done (.error 401 "unauthorized"))
    {code : Code Reply} (hcode : s'.pending setup n = some code) :
    code = .done (.error 401 "unauthorized") := by
  cases System.pending_step h n with
  | served input c k _ hconn _ =>
      have hcall := hrefused (.call c k) (by simp [System.pending, hconn, Conn.code])
      cases hcall
  | kept _ hsame => exact hrefused code (hsame ▸ hcode)
  | lost _ hnone =>
      rw [hnone] at hcode
      cases hcode
  | posted _ _ _ _ _ hnumber _ => omega

/-- The calls of outsiders stay idle. -/
theorem Idle.step {i : τ} (hidle : Idle setup s i) (hout : Outsider setup i)
    (hauth : setup.env.disableAuth ≠ "1") {a : Action τ} (h : s.next setup a = some s') :
    Idle setup s' i := by
  have hfresh := System.fresh_step h
  -- a call that stays at its stage and keeps its lease stays idle
  have hstay : (s'.locals i).stage = (s.locals i).stage →
      (s'.locals i).lease = (s.locals i).lease → Idle setup s' i := by
    intro hstage hlease
    refine ⟨by rw [hlease]; exact hidle.lease, ?_⟩
    rw [hstage]
    rcases hidle.stage with hstart | hdone | ⟨n, hclaiming, hn, hrefused⟩
    · exact .inl hstart
    · exact .inr (.inl hdone)
    · exact .inr (.inr ⟨n, hclaiming, by omega, fun code => refusal_step h hn hrefused⟩)
  rcases System.locals_step h i with ⟨-, hsame⟩ | ⟨m, p, ha, hmove⟩
  · exact hstay (by rw [hsame]) (by rw [hsame])
  · cases Candidate.moved hmove with
    | beats hstage hlease => exact hstay hstage hlease
    | claims _ hstage hlease hpost =>
        refine ⟨by rw [hlease]; exact hidle.lease, .inr (.inr ⟨s.fresh, hstage, ?_, ?_⟩)⟩
        · subst ha hpost
          rw [System.fresh_post h hmove]
          exact Nat.lt_succ_self _
        · intro code hcode
          subst ha hpost
          rw [System.pending_post h hmove, hout.claim_refused hauth] at hcode
          exact (Option.some.inj hcode).symm
    | refused _ _ hstage hlease =>
        exact ⟨by rw [hlease]; exact hidle.lease, .inr (.inl hstage)⟩
    | granted n hclaiming hanswer =>
        -- the reply would be a grant, and it is a refusal
        rcases hidle.stage with hstart | hdone | ⟨n', hclaiming', -, hrefused⟩
        · cases hclaiming.symm.trans hstart
        · cases hclaiming.symm.trans hdone
        · cases hclaiming.symm.trans hclaiming'
          cases hrefused _ (System.pending_of_reply hanswer)
    | onward honward => exact absurd honward.claimed hidle.not_claimed

/-! ## Who made a report -/

/-- The call made the report in the run: by a move that posts it, with a lease of this version. -/
def ReportMade (setup : Setup τ) (actions : List (Action τ)) (i : τ) (version : Int)
    (r : String × List (String × String)) : Prop :=
  ∃ before m after s₀, actions = before ++ .move i m :: after ∧
    Execution (fun s a s' => System.next setup s a = some s') System.initial before s₀ ∧
    (s₀.locals i).tells m = some r ∧ (s₀.locals i).lease.version = version

/-- What the calls tell is what they reported, with the leases that they have. -/
def Spoken (setup : Setup τ) (history : List (Action τ × Option Store.Event)) (s : System τ)
    (tells : τ → Option Outcome) : Prop :=
  ∀ i outcome, tells i = some outcome → ∃ r, outcome = reportOutcome r ∧
    ReportMade setup (history.map Prod.fst) i (s.locals i).lease.version r

theorem Spoken.step (hspoken : Spoken setup history s tells)
    (hexec : Execution (System.Acts setup) System.initial history s)
    (h : Ledger setup history s token tells) (hacts : System.Acts setup s l s') :
    Spoken setup (history ++ [l]) s' (s.speak l.1 tells) := by
  intro i outcome houtcome
  -- a report of before is one of the longer run
  have hkept (hquiet : ∀ m, l.1 = .move i m → (s.locals i).tells m = none) :
      ∃ r, outcome = reportOutcome r ∧
        ReportMade setup ((history ++ [l]).map Prod.fst) i (s'.locals i).lease.version r := by
    rw [speak_of_quiet hquiet] at houtcome
    obtain ⟨r, hr, before, m, after, s₀, hactions, hmade⟩ := hspoken i outcome houtcome
    have hreports : (s.locals i).stage.Reports := by
      by_contra hnot
      rw [h.silent i hnot] at houtcome
      cases houtcome
    rw [(stays_reporting hacts.1 hreports).2]
    exact ⟨r, hr, before, m, after ++ [l.1], s₀, by simp [hactions], hmade⟩
  rcases System.locals_step hacts.1 i with ⟨hother, -⟩ | ⟨m, p, ha, hmove⟩
  · exact hkept fun m hm => absurd hm (hother m)
  · cases htells : (s.locals i).tells m with
    | none =>
        refine hkept fun m' hm' => ?_
        cases ha.symm.trans hm'
        exact htells
    | some r =>
        rw [ha, speak_move htells] at houtcome
        refine ⟨r, (Option.some.inj houtcome).symm, history.map Prod.fst, m, [], s, ?_,
          System.execution_of_acts hexec, htells, ?_⟩
        · simp [ha]
        · rw [(Candidate.onward_of_tells hmove htells).lease]

namespace Sample

/-- A control server that asks for a token, an agent `a` that has it, and an agent `b` that does
not. -/
def guarded : Setup Bool where
  env := ⟨"", "secret"⟩
  ns := "mc"
  candidate
    | true => ⟨"a", "job", 15, "secret"⟩
    | false => ⟨"b", "job", 15, "guess"⟩

/-- The claim of the agent `b` is refused, and the agent `a` runs the job. -/
def turnedAway : List (Action Bool) :=
  .createJob Store.Sample.job { now := 1 } :: [.move false .tryClaim, .deliver 0,
    .move false .claimReply] ++ claimAndRun true 1 2 ++
    [.move true (.containerEnded false [("exit_code", "0")]), .move true .cancelJob,
      .move true .report, .deliver 2, .serve 2 { now := 3 }]

end Sample

end MutualCloud.Agent
