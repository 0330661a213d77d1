import MutualCloud.Control.Announce
import MutualCloud.Control.Requeue
import MutualCloud.Go.ServeMux

/-!
# The routes of the control server

`mountHTTP` of `cmd/control/control_http.go` dispatches a request by the pattern of its path and
then by the ending of the path, and every handler takes the id of its task from the path once more,
in one of two ways: by the number of segments, or by cutting off both ends. `route_served_iff` says
for every route which ids come through.
-/

namespace MutualCloud.Control

open Go

/-! ## Dispatch -/

/-- The handlers that `mountHTTP` mounts. -/
inductive Handler where
  | health
  | listTasks
  | createTask
  | tryClaim
  | heartbeat
  | release
  | logs
  | getTask
  | stats
  | manifest
  | finish
  | debugLease
  | forceRequeue
  deriving DecidableEq

/-- What becomes of a request before a handler sees it. -/
inductive Dispatch where
  | handler (h : Handler)
  /-- `http.Redirect`. -/
  | redirect (path : String)
  /-- `http.Error`. -/
  | error (status : ℕ) (message : String)
  deriving DecidableEq

/-- The patterns of the `ServeMux`. -/
def patterns : List String :=
  ["/api/health", "/api/tasks", "/api/tasks/", "/api/stats/tasks", "/jobs/", "/api/jobs/",
    "/internal/tasks/", "/internal/requeue/"]

/-- `http.NotFound`. -/
def Dispatch.notFound : Dispatch := .error 404 "404 page not found"

/-- The function under the pattern `/api/tasks/`. -/
def dispatchTask (method path : String) : Dispatch :=
  if method = "POST" ∧ hasSuffix path "/try-claim" then .handler .tryClaim
  else if method = "POST" ∧ hasSuffix path "/heartbeat" then .handler .heartbeat
  else if method = "POST" ∧ hasSuffix path "/release" then .handler .release
  else if hasSuffix path "/logs" then .handler .logs
  else .handler .getTask

/-- The function under the pattern `/jobs/`. -/
def dispatchJob (path : String) : Dispatch :=
  if hasSuffix path "/manifest" then .handler .manifest
  else if hasSuffix path "/finish" then .handler .finish
  else .notFound

/-- The function under the pattern `/api/jobs/`. -/
def dispatchApiJob (path : String) : Dispatch :=
  if hasSuffix path "/finish" then .handler .finish else .notFound

/-- `mountHTTP`. -/
def mountHTTP (method path : String) : Dispatch :=
  match findHandler patterns path with
  | .redirect target => .redirect target
  | .notFound => .notFound
  | .pattern text =>
      if text = "/api/health" then .handler .health
      else if text = "/api/tasks" then
        if method = "GET" then .handler .listTasks
        else if method = "POST" then .handler .createTask
        else .error 405 "method not allowed"
      else if text = "/api/tasks/" then dispatchTask method path
      else if text = "/api/stats/tasks" then .handler .stats
      else if text = "/jobs/" then dispatchJob path
      else if text = "/api/jobs/" then dispatchApiJob path
      else if text = "/internal/tasks/" then .handler .debugLease
      else .handler .forceRequeue

/-! ## The id in a path -/

/-- The segments of a path. -/
def segments (path : String) : List String := split (trim path '/') '/'

/-- The segment between `first` and `last`, when there is nothing else in the path. -/
def segmentBetween (first : List String) (last path : String) : Option String :=
  let parts := segments path
  if parts.length = first.length + 2 ∧ parts.take first.length = first ∧
      parts.getLast? = some last then parts[first.length]?
  else none

/-- The path without its two ends. -/
def trimBetween (start tail path : String) : String := trimSuffix (trimPrefix path start) tail

/-- The id that a handler takes from the path. It is missing where the handler answers that the path
is bad or not found, and for the handlers of no single task. -/
def Handler.taskID (path : String) : Handler → Option String
  | tryClaim => segmentBetween ["api", "tasks"] "try-claim" path
  | heartbeat => segmentBetween ["api", "tasks"] "heartbeat" path
  | release => segmentBetween ["api", "tasks"] "release" path
  | manifest => segmentBetween ["jobs"] "manifest" path
  | finish => segmentBetween ["jobs"] "finish" path
  | logs => some (trimBetween "/api/tasks/" "/logs" path)
  | debugLease => some (trimBetween "/internal/tasks/" "/lease" path)
  | forceRequeue => some (forceRequeueID path)
  | getTask =>
      let id := trimPrefix path "/api/tasks/"
      if id = "" then none else some id
  | health | listTasks | createTask | stats => none

/-- The segment is there exactly when the path has these segments. -/
theorem segment_between_eq_some {first : List String} {last path id : String} :
    segmentBetween first last path = some id ↔ segments path = first ++ [id, last] := by
  unfold segmentBetween
  dsimp only
  constructor
  · intro h
    split at h
    next hparts =>
        obtain ⟨hlength, hfirst, hlast⟩ := hparts
        have hrest : ((segments path).drop first.length).length = 2 := by
          rw [List.length_drop]
          omega
        obtain ⟨x, y, hxy⟩ := List.length_eq_two.mp hrest
        have hwhole : segments path = first ++ [x, y] := by
          rw [← hxy, ← hfirst]
          simp [hlength]
        rw [hwhole] at h hlast ⊢
        simp at h hlast
        rw [h, hlast]
    · cases h
  · intro h
    rw [h]
    simp

/-- `Request.parts` are the segments of the path. -/
theorem parts_eq_segments {β : Type} (r : Request β) : r.parts = segments r.path := rfl

/-- `tryClaimHandler` acts on the id in its path. -/
theorem try_claim_task_id {env : Env} {r : Request TryClaimIn} {c : ClaimCall}
    (h : tryClaimRequest env r = .ok c) : Handler.tryClaim.taskID r.path = some c.id := by
  rw [Handler.taskID, segment_between_eq_some, ← parts_eq_segments]
  unfold tryClaimRequest at h
  generalize r.parts = parts at h ⊢
  split at h
  · cases h
  · split at h
    · split at h
      · cases h
      · split at h
        · cases h
        · cases h
          rfl
    · cases h

/-- `heartbeatHandler` acts on the id in its path. -/
theorem heartbeat_task_id {env : Env} {r : Request HbIn} {c : HeartbeatCall}
    (h : heartbeatRequest env r = .ok c) : Handler.heartbeat.taskID r.path = some c.id := by
  rw [Handler.taskID, segment_between_eq_some, ← parts_eq_segments]
  unfold heartbeatRequest at h
  generalize r.parts = parts at h ⊢
  split at h
  · cases h
  · split at h
    · split at h
      · cases h
      · dsimp only at h
        split at h
        · cases h
        · cases h
          rfl
    · cases h

/-- `releaseHandler` acts on the id in its path. -/
theorem release_task_id {env : Env} {r : Request ReleaseIn} {c : ReleaseCall}
    (h : releaseRequest env r = .ok c) : Handler.release.taskID r.path = some c.id := by
  rw [Handler.taskID, segment_between_eq_some, ← parts_eq_segments]
  unfold releaseRequest at h
  generalize r.parts = parts at h ⊢
  split at h
  · cases h
  · split at h
    · split at h
      · cases h
      · cases h
        rfl
    · cases h

/-- `manifestHandler` acts on the id in its path. -/
theorem manifest_task_id {cfg : Config} {r : Request ManifestIn} {id : String} {body : ManifestIn}
    (h : manifestRequest cfg r = .ok (id, body)) : Handler.manifest.taskID r.path = some id := by
  rw [Handler.taskID, segment_between_eq_some, ← parts_eq_segments]
  unfold manifestRequest at h
  generalize r.parts = parts at h ⊢
  split at h
  · cases h
  · split at h
    · split at h
      · cases h
      · split at h
        · cases h
        · split at h
          · cases h
          · split at h
            · cases h
            · cases h
              rfl
    · cases h

/-- `finishHandler` acts on the id in its path. -/
theorem finish_task_id {env : Env} {r : Request FinishIn} {c : FinishCall}
    (h : finishRequest env r = .ok c) : Handler.finish.taskID r.path = some c.id := by
  rw [Handler.taskID, segment_between_eq_some, ← parts_eq_segments]
  unfold finishRequest at h
  generalize r.parts = parts at h ⊢
  split at h
  · cases h
  · split at h
    · cases h
    · split at h
      · split at h
        · cases h
        · cases h
          rfl
      · cases h

/-! ## The routes of a task -/

/-- The routes with the id of a task. -/
inductive Route where
  | tryClaim
  | heartbeat
  | release
  | task
  | logs
  | manifest
  | finish
  | apiFinish
  | lease
  | forceRequeue
  deriving DecidableEq

namespace Route

/-- The method of the route. -/
def method : Route → String
  | task | logs | lease => "GET"
  | tryClaim | heartbeat | release | manifest | finish | apiFinish | forceRequeue => "POST"

/-- The path of the route before the id, which is one of the patterns. -/
def start : Route → String
  | tryClaim | heartbeat | release | task | logs => "/api/tasks/"
  | manifest | finish => "/jobs/"
  | apiFinish => "/api/jobs/"
  | lease => "/internal/tasks/"
  | forceRequeue => "/internal/requeue/"

/-- The path of the route after the id. -/
def tail : Route → String
  | tryClaim => "/try-claim"
  | heartbeat => "/heartbeat"
  | release => "/release"
  | task => ""
  | logs => "/logs"
  | manifest => "/manifest"
  | finish | apiFinish => "/finish"
  | lease => "/lease"
  | forceRequeue => "/force-requeue"

/-- The path of the route for a task. -/
def path (route : Route) (id : String) : String := route.start ++ id ++ route.tail

/-- The handler for the route. -/
def handler : Route → Handler
  | tryClaim => .tryClaim
  | heartbeat => .heartbeat
  | release => .release
  | task => .getTask
  | logs => .logs
  | manifest => .manifest
  | finish | apiFinish => .finish
  | lease => .debugLease
  | forceRequeue => .forceRequeue

/-- The request gets to the handler of the route, and the handler takes the id from it. -/
def Served (route : Route) (id : String) : Prop :=
  mountHTTP route.method (route.path id) = .handler route.handler ∧
    route.handler.taskID (route.path id) = some id

/-- The ids that a route serves. The handlers that count segments need an id of one segment; the
others need an id that leaves the path clean, and the ending of a task must not read as that of its
logs. -/
def Accepts (route : Route) (id : String) : Prop :=
  match route with
  | tryClaim | heartbeat | release | manifest | finish => '/' ∉ id.toList ∧ Plain id
  | logs | lease | forceRequeue => ∀ part ∈ split id '/', Plain part
  | task => id ≠ "" ∧ CleanParts (split id '/') ∧ hasSuffix ("/" ++ id) "/logs" = false
  | apiFinish => False

/-- The components of the path before the id. -/
def before : Route → List String
  | tryClaim | heartbeat | release | task | logs => ["api", "tasks"]
  | manifest | finish => ["jobs"]
  | apiFinish => ["api", "jobs"]
  | lease => ["internal", "tasks"]
  | forceRequeue => ["internal", "requeue"]

/-- The components of the path after the id. -/
def after : Route → List String
  | tryClaim => ["try-claim"]
  | heartbeat => ["heartbeat"]
  | release => ["release"]
  | task => []
  | logs => ["logs"]
  | manifest => ["manifest"]
  | finish | apiFinish => ["finish"]
  | lease => ["lease"]
  | forceRequeue => ["force-requeue"]

/-- The path of a route by its components. -/
theorem path_eq (route : Route) (id : String) :
    route.path id = slashed (route.before ++ split id '/' ++ route.after) := by
  have hstart : route.start = slashed route.before ++ "/" := by cases route <;> rfl
  have htail : route.tail = slashed route.after := by cases route <;> rfl
  rw [path, hstart, htail, slashed_append, slashed_append, slashed_split]
  simp only [String.append_assoc]

/-- The components of the path have no slash in them. -/
theorem path_parts (route : Route) (id : String) :
    ∀ p ∈ route.before ++ split id '/' ++ route.after, '/' ∉ p.toList := by
  have hbefore : ∀ p ∈ route.before, '/' ∉ p.toList := by cases route <;> decide
  have hafter : ∀ p ∈ route.after, '/' ∉ p.toList := by cases route <;> decide
  intro p hp
  rcases List.mem_append.mp hp with hp | hp
  · rcases List.mem_append.mp hp with hp | hp
    · exact hbefore p hp
    · exact not_mem_of_mem_split hp
  · exact hafter p hp

/-- The path of a route is clean exactly when its components are. -/
theorem clean_path_iff (route : Route) (id : String) :
    cleanPath (route.path id) = route.path id ↔
      CleanParts (route.before ++ split id '/' ++ route.after) := by
  have hne : route.before ++ split id '/' ++ route.after ≠ [] := by cases route <;> simp [before]
  rw [path_eq]
  exact clean_path_eq_iff hne (path_parts route id)

/-- The only pattern that the path before the id is comparable with is itself. -/
theorem start_comparable (route : Route) : ∀ pattern ∈ patterns,
    (hasSuffix pattern "/" = true → pattern.toList <+: route.start.toList → pattern = route.start) ∧
      (route.start.toList <+: pattern.toList → pattern = route.start) := by
  cases route <;> decide

/-- A path of a route matches no other pattern. -/
theorem pattern_matches_path (route : Route) (rest : String) {pattern : String}
    (hpattern : pattern ∈ patterns) :
    patternMatches pattern (route.start ++ rest) = decide (pattern = route.start) := by
  obtain ⟨hbelow, habove⟩ := route.start_comparable pattern hpattern
  have hstart : hasSuffix route.start "/" = true := by cases route <;> decide
  have hpre : route.start.toList <+: (route.start ++ rest).toList := by simp
  rw [Bool.eq_iff_iff, decide_eq_true_iff, patternMatches]
  constructor
  · intro h
    split at h
    next hslash =>
        rw [hasPrefix, List.isPrefixOf_iff_prefix] at h
        rcases List.prefix_or_prefix_of_prefix h hpre with hle | hle
        · exact hbelow hslash hle
        · exact habove hle
    · have hsame : route.start ++ rest = pattern := by simpa using h
      exact habove (hsame ▸ hpre)
  · rintro rfl
    rw [if_pos hstart, hasPrefix, List.isPrefixOf_iff_prefix]
    exact hpre

/-- A path of a route goes to the pattern of the route when it is clean, and is redirected when it
is not. -/
theorem find_handler_path (route : Route) (id : String) :
    (cleanPath (route.path id) = route.path id →
      findHandler patterns (route.path id) = .pattern route.start) ∧
    (cleanPath (route.path id) ≠ route.path id →
      ∃ target, findHandler patterns (route.path id) = .redirect target) := by
  constructor
  · intro hclean
    have hrest : route.path id = route.start ++ (id ++ route.tail) := String.append_assoc
    -- a longer path is not a pattern
    have hslash : route.path id ++ "/" ∉ patterns := by
      intro h
      have hpre : route.start.toList <+: (route.path id ++ "/").toList := by
        rw [hrest]
        simp
      have hsame := congrArg (fun s : String => s.toList.length)
        ((route.start_comparable _ h).2 hpre)
      rw [hrest] at hsame
      simp at hsame
    have hfilter : patterns.filter (patternMatches · (route.path id)) = [route.start] := by
      have hcongr : patterns.filter (patternMatches · (route.path id)) =
          patterns.filter fun pattern => decide (pattern = route.start) := by
        refine List.filter_congr fun pattern hpattern => ?_
        rw [hrest]
        exact route.pattern_matches_path _ hpattern
      rw [hcongr]
      cases route <;> decide
    unfold findHandler
    dsimp only
    rw [hclean, if_neg (fun h => hslash h.2.2), if_neg (not_not.mpr rfl), hfilter]
    rfl
  · intro hclean
    unfold findHandler
    dsimp only
    split
    · exact ⟨_, rfl⟩
    · exact ⟨_, rfl⟩

/-- The ending of the path of a task reads as that of its logs exactly when that of its id does. -/
theorem task_logs_suffix (id : String) :
    hasSuffix (Route.task.path id) "/logs" = hasSuffix ("/" ++ id) "/logs" := by
  have hpath : (Route.task.path id).toList = "/api/tasks".toList ++ ("/" ++ id).toList := by
    simp [path, start, tail]
  rw [Bool.eq_iff_iff, hasSuffix, hasSuffix, List.isSuffixOf_iff_suffix, List.isSuffixOf_iff_suffix,
    hpath]
  constructor
  · intro h
    rcases List.suffix_or_suffix_of_suffix h (List.suffix_append _ _) with hle | hle
    · exact hle
    · -- the slash before the id is the first character of the ending
      have hsame : ("/" ++ id).toList = "/logs".toList := by
        obtain ⟨front, hfront⟩ := hle
        have hslash : ("/" ++ id).toList = '/' :: id.toList := by simp
        rw [hslash] at hfront ⊢
        cases front with
        | nil => exact hfront
        | cons c front =>
            have hmem : '/' ∈ "logs".toList := by
              have htail : front ++ '/' :: id.toList = "logs".toList :=
                (List.cons.inj (hfront.trans (by decide : "/logs".toList = '/' :: "logs".toList))).2
              rw [← htail]
              simp
            exact absurd hmem (by decide)
      rewrite [hsame]
      exact List.suffix_rfl
  · intro h
    exact h.trans (List.suffix_append _ _)

/-- A request gets to the handler of its route exactly when its path is clean, unless it asks for a
task whose id ends like a request for logs. -/
theorem dispatched_iff (route : Route) (id : String) :
    mountHTTP route.method (route.path id) = .handler route.handler ↔
      cleanPath (route.path id) = route.path id ∧
        (route = .task → hasSuffix ("/" ++ id) "/logs" = false) := by
  obtain ⟨hfound, hredirect⟩ := route.find_handler_path id
  by_cases hclean : cleanPath (route.path id) = route.path id
  · rw [mountHTTP, hfound hclean]
    have hends : hasSuffix (route.path id) route.tail = true := has_suffix_append _ _
    -- the endings that are tested before that of the route have another last character
    have hother : ∀ other : String, route.tail.toList ≠ [] → other.toList ≠ [] →
        other.toList.getLast? ≠ route.tail.toList.getLast? →
        hasSuffix (route.path id) other = false := fun _ => has_suffix_eq_false
    cases route with
    | task =>
        rw [← task_logs_suffix]
        simp [start, method, handler, dispatchTask, hclean]
    | tryClaim =>
        have htest : hasSuffix (Route.tryClaim.path id) "/try-claim" = true := hends
        simp [start, method, handler, dispatchTask, hclean, htest]
    | heartbeat =>
        have htest : hasSuffix (Route.heartbeat.path id) "/heartbeat" = true := hends
        have hclaim := hother "/try-claim" (by decide) (by decide) (by decide)
        simp [start, method, handler, dispatchTask, hclean, htest, hclaim]
    | release =>
        have htest : hasSuffix (Route.release.path id) "/release" = true := hends
        have hclaim := hother "/try-claim" (by decide) (by decide) (by decide)
        have hbeat := hother "/heartbeat" (by decide) (by decide) (by decide)
        simp [start, method, handler, dispatchTask, hclean, htest, hclaim, hbeat]
    | logs =>
        have htest : hasSuffix (Route.logs.path id) "/logs" = true := hends
        simp [start, method, handler, dispatchTask, hclean, htest]
    | manifest =>
        have htest : hasSuffix (Route.manifest.path id) "/manifest" = true := hends
        simp [start, handler, dispatchJob, hclean, htest]
    | finish =>
        have htest : hasSuffix (Route.finish.path id) "/finish" = true := hends
        have hmanifest := hother "/manifest" (by decide) (by decide) (by decide)
        simp [start, handler, dispatchJob, hclean, htest, hmanifest]
    | apiFinish =>
        have htest : hasSuffix (Route.apiFinish.path id) "/finish" = true := hends
        simp [start, handler, dispatchApiJob, hclean, htest]
    | lease | forceRequeue => simp [start, handler, hclean]
  · obtain ⟨target, htarget⟩ := hredirect hclean
    rw [mountHTTP, htarget]
    simp [hclean]

/-- The segments of the path of a route with an ending. -/
theorem segments_path {route : Route} (hroute : route ≠ .task) (id : String) :
    segments (route.path id) = route.before ++ split id '/' ++ route.after := by
  rw [segments, path_eq]
  refine split_trim_slashed (route.path_parts id) ?_ ?_ ?_
  · cases route <;> simp [before]
  · cases route <;> simp [after] at hroute ⊢
  · cases route <;> simp [before]

/-- A handler that counts segments finds the only segment of the id. -/
theorem segment_between_split {route : Route} (hroute : route ≠ .task) {last : String}
    (hafter : route.after = [last]) (id part : String) :
    segmentBetween route.before last (route.path id) = some part ↔ split id '/' = [part] := by
  rw [segment_between_eq_some, segments_path hroute, hafter, List.append_assoc,
    List.append_cancel_left_eq]
  exact ⟨fun h => List.append_inj_left' h rfl, fun h => by rw [h]; rfl⟩

/-- A handler that counts segments finds the id exactly when the id is one segment. -/
theorem segment_between_path {route : Route} (hroute : route ≠ .task) {last : String}
    (hafter : route.after = [last]) (id : String) :
    segmentBetween route.before last (route.path id) = some id ↔ '/' ∉ id.toList := by
  rw [segment_between_split hroute hafter, split_eq_singleton_iff, and_iff_right rfl]

/-- The ids that the handler of a route takes from the path. -/
theorem task_id_iff (route : Route) (id : String) :
    route.handler.taskID (route.path id) = some id ↔
      match route with
      | tryClaim | heartbeat | release | manifest | finish => '/' ∉ id.toList
      | logs | lease | forceRequeue => True
      | task => id ≠ ""
      | apiFinish => False := by
  have htrim : ∀ start tail : String, trimBetween start tail (start ++ id ++ tail) = id := by
    intro start tail
    rw [trimBetween, String.append_assoc, trim_prefix_append, trim_suffix_append]
  cases route with
  | tryClaim => exact @segment_between_path .tryClaim nofun _ rfl id
  | heartbeat => exact @segment_between_path .heartbeat nofun _ rfl id
  | release => exact @segment_between_path .release nofun _ rfl id
  | manifest => exact @segment_between_path .manifest nofun _ rfl id
  | finish => exact @segment_between_path .finish nofun _ rfl id
  | logs => exact iff_of_true (congrArg some (htrim "/api/tasks/" "/logs")) trivial
  | lease => exact iff_of_true (congrArg some (htrim "/internal/tasks/" "/lease")) trivial
  | forceRequeue =>
      exact iff_of_true (congrArg some (htrim "/internal/requeue/" "/force-requeue")) trivial
  | task =>
      have hid : trimPrefix (Route.task.path id) "/api/tasks/" = id := by
        have hpath : Route.task.path id = "/api/tasks/" ++ id := String.append_empty
        rw [hpath, trim_prefix_append]
      rw [handler, Handler.taskID]
      dsimp only
      rw [hid]
      by_cases hempty : id = "" <;> simp [hempty]
  | apiFinish =>
      -- there is one segment too many in front of the id
      have hroute : Route.apiFinish ≠ .task := nofun
      rw [handler, Handler.taskID, segment_between_eq_some, segments_path hroute]
      simp [before]

/-- A request for a plain id gets to the handler of its route. -/
theorem dispatched_of_plain {id : String} {route : Route} (hroute : route ≠ .task)
    (hslash : '/' ∉ id.toList) (hplain : Plain id) :
    mountHTTP route.method (route.path id) = .handler route.handler := by
  have hbefore : ∀ p ∈ route.before, Plain p := by cases route <;> decide
  have hafter : ∀ p ∈ route.after, Plain p := by cases route <;> decide
  refine (dispatched_iff route id).mpr
    ⟨(clean_path_iff route id).mpr (.inl fun p hp => ?_), fun htask => absurd htask hroute⟩
  rw [split_eq_singleton hslash] at hp
  rcases List.mem_append.mp hp with hp | hp
  · rcases List.mem_append.mp hp with hp | hp
    · exact hbefore p hp
    · exact List.mem_singleton.mp hp ▸ hplain
  · exact hafter p hp

/-- A route serves exactly the ids that it accepts. -/
theorem route_served_iff (route : Route) (id : String) : route.Served id ↔ route.Accepts id := by
  have hbefore : ∀ p ∈ route.before, Plain p := by cases route <;> decide
  have hone : '/' ∉ id.toList → ((∀ p ∈ split id '/', Plain p) ↔ Plain id) := by
    intro h
    rw [split_eq_singleton h]
    simp
  unfold Served
  rw [dispatched_iff, task_id_iff, clean_path_iff]
  cases route with
  | task =>
      rw [show Route.task.after = [] from rfl, List.append_nil,
        clean_parts_append_iff hbefore (by simp [split])]
      simp only [Accepts, forall_const]
      tauto
  | apiFinish => simp [Accepts]
  | tryClaim | heartbeat | release | manifest | finish =>
      rw [after, clean_parts_concat hbefore (by decide)]
      simp only [Accepts, reduceCtorEq, false_implies, and_true]
      constructor
      · rintro ⟨hplain, hslash⟩
        exact ⟨hslash, (hone hslash).mp hplain⟩
      · rintro ⟨hslash, hplain⟩
        exact ⟨(hone hslash).mpr hplain, hslash⟩
  | logs | lease | forceRequeue =>
      rw [after, clean_parts_concat hbefore (by decide)]
      simp [Accepts]

/-- A finish under `/api/jobs/` gets to its handler, which finds no id in the path, and the same
happens to a claim of an id with a slash. A request for the task `logs` gets to the handler of logs,
and a path with dots is redirected. -/
theorem route_missed :
    (mountHTTP "POST" "/api/jobs/job/finish" = .handler .finish ∧
      Handler.finish.taskID "/api/jobs/job/finish" = none) ∧
    (mountHTTP "POST" "/api/tasks/a/b/try-claim" = .handler .tryClaim ∧
      Handler.tryClaim.taskID "/api/tasks/a/b/try-claim" = none) ∧
    mountHTTP "GET" "/api/tasks/logs" = .handler .logs ∧
    mountHTTP "GET" "/internal/tasks/../lease" = .redirect "/internal/lease" := by
  decide +kernel

end Route

end MutualCloud.Control
