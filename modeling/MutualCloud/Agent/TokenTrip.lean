import MutualCloud.Agent.Candidate
import MutualCloud.Control.Routes

/-!
# The fencing token on its way

The claim statement returns `lease_token`, a positive `BIGINT`. The store makes a `uint64` of it,
`tryClaimHandler` an `int64` again, which goes to the agent in JSON. The agent sends it back twice:
as the number `lease_version` in the body of a heartbeat, and as the decimal text of the header
`X-Lease-Token` in a report. The handlers make a `uint64` of it, and the store an `int64`, with
which its statements compare `lease_token`.

`token_round_trip` follows a token from the claim of an agent to the statements of its heartbeats
and reports. The conversions keep its value, because it is below `2 ^ 63`. A token from `2 ^ 63` on
becomes a negative parameter, and no row has a negative token.
-/

namespace MutualCloud.Agent

open Go Interaction Store Control

/-! ## JSON -/

/-- An `int64` field that one side encodes by `strconv.AppendInt` and the other side decodes by
`strconv.ParseInt`. -/
def overJSON (x : Int) : Option Int := atoi (toString x)

/-- Every `int64` value arrives. -/
theorem over_json {x : Int} (hmin : -2 ^ 63 ≤ x) (hmax : x < 2 ^ 63) : overJSON x = some x := by
  unfold overJSON
  rw [atoi_to_string, if_pos ⟨hmin, hmax⟩]

/-- The lease of a `leaseOut`, as `HTTPClaimClient.TryClaim` decodes it. -/
def received (lease : TaskLease) : Option TaskLease :=
  (overJSON lease.version).map fun version => { lease with version := version }

/-- The body of a heartbeat, as `heartbeatHandler` decodes it. -/
def decodedBody (body : HbIn) : Except String HbIn :=
  match overJSON body.leaseVersion with
  | some version => .ok { body with leaseVersion := version }
  | none => .error ("json: cannot unmarshal number " ++ toString body.leaseVersion ++
      " into Go struct field hbIn.lease_version of type int64")

/-- A heartbeat, as `heartbeatHandler` decodes it. -/
def decoded (r : Request HbIn) : Request HbIn := { r with body := r.body.bind decodedBody }

/-! ## The parameter of the statements -/

/-- The parameter with which a statement compares `lease_token`. -/
def tokenParam : Stmt → Option Int
  | .heartbeat _ _ token _ | .finish _ _ token _ => some (int64 token)
  | .createJob _ | .getJob _ | .attachManifest _ _ | .tryClaim _ _ _ | .claimRefusal _
  | .listExpiredLeases | .setStatusQueued _ => none

/-- The first thing the code does is to send a statement with this parameter. -/
def Presents (p : Code Reply) (param : Int) : Prop :=
  ∃ s k, p = .call (.sql s) k ∧ tokenParam s = some param

/-! ## The requests of an agent -/

section Requests

variable {env : Env} {c : Candidate} {r : Request TryClaimIn} {call : ClaimCall}

/-- An agent whose claim passes the checks is authorized, and its job has an id of one segment. -/
theorem claim_accepted (hpost : c.tryClaim = .tryClaim r)
    (hcall : tryClaimRequest env r = .ok call) :
    requireAuth env r = true ∧ call.id = c.jobID ∧ '/' ∉ c.jobID.toList := by
  have hpath : r.path = Route.tryClaim.path c.jobID := by
    cases hpost
    rfl
  have hauth : requireAuth env r = true := by
    unfold tryClaimRequest at hcall
    split at hcall
    · cases hcall
    next hauth => exact not_not.mp hauth
  have hid := try_claim_task_id hcall
  rw [Handler.taskID, hpath] at hid
  have hsplit : split c.jobID '/' = [call.id] :=
    (@Route.segment_between_split .tryClaim (by simp) _ rfl c.jobID call.id).mp hid
  obtain ⟨hsame, hslash⟩ := split_eq_singleton_iff.mp hsplit
  exact ⟨hauth, hsame, hslash⟩

/-- Requests with one authorization are authorized alike. -/
theorem require_auth_congr {β γ : Type} {r : Request β} {r' : Request γ}
    (h : r.header "Authorization" = r'.header "Authorization") :
    requireAuth env r = requireAuth env r' := by
  unfold requireAuth
  rw [h]

/-- What an agent sends with the authorization of an authorized claim is authorized. -/
theorem agent_authorized {β : Type} {request : Request β} (hpost : c.tryClaim = .tryClaim r)
    (hauth : requireAuth env r = true)
    (hheader : request.header "Authorization" = c.authorization "Authorization") :
    requireAuth env request = true := by
  rw [← hauth]
  apply require_auth_congr
  cases hpost
  exact hheader

/-- The segments of the path of a route, for an id of one segment. -/
theorem segments_one {route : Route} (hroute : route ≠ .task) {id : String}
    (hslash : '/' ∉ id.toList) :
    segments (route.path id) = route.before ++ [id] ++ route.after := by
  rw [Route.segments_path hroute, split_eq_singleton hslash]

/-- The claim is answered with the token that its statement returned. -/
theorem claim_answer {inputs : ℕ → Control.Input} {w : World} {t : Int} {expiry : Time}
    (hcall : tryClaimRequest env r = .ok call)
    (hreturned :
      (Store.effect (.tryClaim call.id call.agentID call.ttl) (inputs 0).toInput w.db).1 =
        .ok (some (t, expiry))) :
    ((tryClaimHandler env r).run Control.effect inputs w).value =
      .leaseOut true ⟨call.agentID, "", expiry, int64 (uint64 t)⟩ := by
  have hanswer : (Control.effect (.sql (.tryClaim call.id call.agentID call.ttl)) (inputs 0) w).1 =
      .ok (some (t, expiry)) := hreturned
  unfold tryClaimHandler
  rw [hcall]
  simp only [claimJob, Control.store, PGStore.tryClaim, Prog.perform_bind, Prog.embed,
    Prog.call_bind, Prog.run]
  rw [hanswer]
  rfl

/-- A positive token is not the zero that stands for a missing one. -/
theorem uint64_ne_zero {v : Int} (hpos : 1 ≤ v) (hlt : v < 2 ^ 63) : uint64 v ≠ 0 := by
  intro hzero
  have hn := toNat_uint64 (by omega) hlt
  rw [hzero] at hn
  have hzero' : (0 : UInt64).toNat = 0 := rfl
  omega

/-- The token in a decimal text. -/
theorem token_of_to_string {v : Int} (hpos : 1 ≤ v) (hlt : v < 2 ^ 63) :
    tokenOf (toString v) = uint64 v := by
  obtain ⟨m, rfl⟩ := Int.eq_ofNat_of_zero_le (show 0 ≤ v by omega)
  have hparse : parseUint (toString (m : Int)) = some (UInt64.ofNat m) :=
    parse_uint_to_string (by omega)
  have hne : toString (m : Int) ≠ "" := by
    intro hempty
    rw [hempty] at hparse
    cases hparse
  have hmod : (m : Int) % 2 ^ 64 = m := Int.emod_eq_of_lt (by omega) (by omega)
  unfold tokenOf uint64
  rw [if_pos hne, hparse, hmod]
  rfl

/-- A heartbeat with a positive version passes the checks. -/
theorem heartbeat_request_ok {beat : Request HbIn} {id : String} {body : HbIn}
    (hauth : requireAuth env beat = true) (hparts : beat.parts = ["api", "tasks", id, "heartbeat"])
    (hbody : beat.body = .ok body) (hpos : 1 ≤ body.leaseVersion)
    (hlt : body.leaseVersion < 2 ^ 63) :
    heartbeatRequest env beat =
      .ok ⟨id, body.agentID, uint64 body.leaseVersion, ttlOrDefault body.ttlSec⟩ := by
  have htoken : heartbeatToken beat body = uint64 body.leaseVersion :=
    if_pos (show body.leaseVersion > 0 by omega)
  unfold heartbeatRequest
  rw [hauth, hparts, hbody]
  simp only [htoken, uint64_ne_zero hpos hlt, not_true_eq_false, if_false]

/-- A report with a positive token passes the checks. -/
theorem finish_request_ok {report : Request FinishIn} {id : String} {body : FinishIn} {v : Int}
    (hauth : requireAuth env report = true) (hmethod : report.method = "POST")
    (hparts : report.parts = ["jobs", id, "finish"]) (hbody : report.body = .ok body)
    (hheader : report.header "X-Lease-Token" = toString v) (hpos : 1 ≤ v) (hlt : v < 2 ^ 63) :
    ∃ outcome, finishRequest env report =
      .ok ⟨id, report.header "X-Agent-ID", uint64 v, outcome⟩ := by
  unfold finishRequest
  rw [hauth, hmethod, hparts, hbody, hheader, token_of_to_string hpos hlt]
  simp

variable {held : TaskLease} {v : Int}

/-- The heartbeats of an agent present the version of its lease. -/
theorem heartbeat_presents (hpost : c.tryClaim = .tryClaim r) (hauth : requireAuth env r = true)
    (hslash : '/' ∉ c.jobID.toList) (hheld : held.version = v) (hpos : 1 ≤ v) (hlt : v < 2 ^ 63) :
    ∃ beat, c.heartbeat held = .heartbeat beat ∧
      Presents (heartbeatHandler env (decoded beat)) v := by
  refine ⟨_, rfl, ?_⟩
  generalize hbeat : decoded _ = beat
  have hauth' : requireAuth env beat = true := by
    apply agent_authorized hpost hauth
    rw [← hbeat]
    rfl
  have hparts : beat.parts = ["api", "tasks", c.jobID, "heartbeat"] := by
    rw [← hbeat]
    exact @segments_one .heartbeat nofun c.jobID hslash
  have hbody : beat.body = .ok ⟨c.agentID, held.nonce, c.ttlSec, v⟩ := by
    rw [← hbeat, ← hheld]
    show decodedBody _ = _
    unfold decodedBody
    rw [hheld, over_json (by omega) hlt]
  refine ⟨.heartbeat c.jobID c.agentID (uint64 v) (ttlOrDefault c.ttlSec), ?_⟩
  unfold heartbeatHandler
  rw [heartbeat_request_ok hauth' hparts hbody hpos hlt]
  exact ⟨_, rfl, congrArg some (int64_uint64 (by omega) hlt)⟩

/-- The reports of an agent present the version of its lease. -/
theorem report_presents (hpost : c.tryClaim = .tryClaim r) (hauth : requireAuth env r = true)
    (hslash : '/' ∉ c.jobID.toList) (hheld : held.version = v) (hpos : 1 ≤ v) (hlt : v < 2 ^ 63)
    (ns status : String) (metrics : List (String × String)) :
    ∃ report, c.report held status metrics = .finish report ∧
      Presents (finishHandler env ns report) v := by
  refine ⟨_, rfl, ?_⟩
  generalize hreport : reportRequest c held status metrics = report
  have hauth' : requireAuth env report = true := by
    apply agent_authorized hpost hauth
    rw [← hreport]
    rfl
  have hparts : report.parts = ["jobs", c.jobID, "finish"] := by
    rw [← hreport]
    exact @segments_one .finish nofun c.jobID hslash
  have hheader : report.header "X-Lease-Token" = toString v := by
    rw [← hreport, ← hheld]
    have hversion : held.version > 0 := by omega
    simp [reportRequest, hversion]
  have hmethod : report.method = "POST" := by rw [← hreport, reportRequest]
  have hbody : report.body = .ok ⟨status, some metrics, none, ""⟩ := by
    rw [← hreport, reportRequest]
  obtain ⟨outcome, hrequest⟩ :=
    finish_request_ok hauth' hmethod hparts hbody hheader hpos hlt
  refine ⟨.finish c.jobID (report.header "X-Agent-ID") (uint64 v) outcome, ?_⟩
  unfold finishHandler
  rw [hrequest]
  exact ⟨_, rfl, congrArg some (int64_uint64 (by omega) hlt)⟩

end Requests

/-! ## Tokens that wrap around -/

/-- A token from `2 ^ 63` on passes no guard of a row that the store can reach. -/
theorem wrapped_token_matches_none {history : List Store.Event} {db : DemandJobs}
    (hrun : Store.Run history db) {id : String} {row : Row} (hrow : db.lookup id = some row)
    {token : UInt64} (htoken : 2 ^ 63 ≤ token.toNat) (agentID : String) :
    ¬ row.HeldBy agentID token ∧ ¬ row.Finishable agentID token := by
  have hnonneg := (hrun.sound id row hrow).token_nonneg
  have hneg := int64_neg htoken
  refine ⟨?_, ?_⟩
  · rintro ⟨-, hsame⟩
    omega
  · rintro ⟨-, hle⟩
    omega

/-- The round trip of the fencing token. An agent posts a claim, the claim passes the checks, and
its statement returns a token that is positive and below `2 ^ 63`. Then the agent receives a lease,
and every heartbeat and every report that it makes with this lease sends the store a statement whose
parameter is the token that was returned. A token from `2 ^ 63` on, which an agent may present as
well, passes the guard of no row in any table that the store can reach. -/
theorem token_round_trip {env : Env} {c : Candidate} {r : Request TryClaimIn} {call : ClaimCall}
    {inputs : ℕ → Control.Input} {w : World} {t : Int} {expiry : Time}
    (hpost : c.tryClaim = .tryClaim r) (hcall : tryClaimRequest env r = .ok call)
    (hreturned :
      (Store.effect (.tryClaim call.id call.agentID call.ttl) (inputs 0).toInput w.db).1 =
        .ok (some (t, expiry)))
    (hpos : 1 ≤ t) (hlt : t < 2 ^ 63) :
    (∃ sent held,
      ((tryClaimHandler env r).run Control.effect inputs w).value = .leaseOut true sent ∧
      received sent = some held ∧
      (∃ beat, c.heartbeat held = .heartbeat beat ∧
        Presents (heartbeatHandler env (decoded beat)) t) ∧
      ∀ ns status metrics, ∃ report, c.report held status metrics = .finish report ∧
        Presents (finishHandler env ns report) t) ∧
    ∀ (history : List Store.Event) (db : DemandJobs) (id : String) (row : Row) (agentID : String)
      (token : UInt64), Store.Run history db → db.lookup id = some row → 2 ^ 63 ≤ token.toNat →
      ¬ row.HeldBy agentID token ∧ ¬ row.Finishable agentID token := by
  obtain ⟨hauth, -, hslash⟩ := claim_accepted hpost hcall
  have hsame : int64 (uint64 t) = t := int64_uint64 (by omega) hlt
  have hreceived : received ⟨call.agentID, "", expiry, int64 (uint64 t)⟩ =
      some ⟨call.agentID, "", expiry, t⟩ := by
    unfold received
    rw [hsame, over_json (by omega) hlt]
    rfl
  refine ⟨⟨_, _, claim_answer hcall hreturned, hreceived, ?_, ?_⟩, ?_⟩
  · exact heartbeat_presents hpost hauth hslash rfl hpos hlt
  · exact report_presents hpost hauth hslash rfl hpos hlt
  · intro history db id row agentID token hrun hrow htoken
    exact wrapped_token_matches_none hrun hrow htoken agentID

namespace Sample

/-- An agent that is called for the sample job. -/
def caller : Candidate := ⟨"a", "job", 15, ""⟩

/-- The claim of the agent. -/
def callerClaim : Request TryClaimIn where
  method := "POST"
  path := "/api/tasks/job/try-claim"
  header := caller.authorization
  body := .ok ⟨"a", 15⟩

/-- The sample job, which has one token left. -/
def oneLeft : World where
  db := (∅ : DemandJobs).insert "job" { Row.fresh Store.Sample.job with leaseToken := 2 ^ 63 - 2 }
  dht _ := none
  dirty := []
  trigger := false

end Sample

/-- The largest token survives the round trip. -/
theorem token_round_trip_largest :
    ∃ sent held,
      ((tryClaimHandler ⟨"1", ""⟩ Sample.callerClaim).run Control.effect (fun _ => { now := 2 })
        Sample.oneLeft).value = .leaseOut true sent ∧
      received sent = some held ∧
      (∃ beat, Sample.caller.heartbeat held = .heartbeat beat ∧
        Presents (heartbeatHandler ⟨"1", ""⟩ (decoded beat)) (2 ^ 63 - 1)) ∧
      ∀ ns status metrics, ∃ report, Sample.caller.report held status metrics = .finish report ∧
        Presents (finishHandler ⟨"1", ""⟩ ns report) (2 ^ 63 - 1) := by
  have hpost : Sample.caller.tryClaim = .tryClaim Sample.callerClaim := rfl
  have hcall : tryClaimRequest ⟨"1", ""⟩ Sample.callerClaim = .ok ⟨"job", "a", 15 * second⟩ := rfl
  have hreturned : (Store.effect (.tryClaim "job" "a" (15 * second)) { now := 2 }
      Sample.oneLeft.db).1 = .ok (some (2 ^ 63 - 1, 15000000002)) := by
    decide +kernel
  exact (@token_round_trip _ _ _ _ (fun _ => { now := 2 }) _ _ _ hpost hcall hreturned (by decide)
    (by decide)).1

end MutualCloud.Agent
