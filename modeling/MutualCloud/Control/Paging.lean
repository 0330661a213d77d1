import MutualCloud.Control.Server
import MutualCloud.Library.Paging

/-!
# Reading the tasks page by page

A client lists the tasks with `GET /api/tasks`, a limit and an offset that it advances by the
number of jobs it received. `ListPaged` orders by `created_at` only, and Postgres may order jobs of
one time in one way for one page and in another way for the next. `paging_exact_iff` says for which
tables and limits the client still gets every job once: no page may end among jobs of one time, and
the offset has to stay in the range of `strconv.Atoi`.
-/

namespace MutualCloud.Control

open Go KeyedTable Interaction Labelled Store

/-! ## Requests for pages -/

/-- A client that is authorized. -/
structure Client (cfg : Config) where
  header : String → String
  body : Body
  authorized : requireAuth cfg.env ⟨"GET", "/api/tasks", header, (.ok () : Except String Unit)⟩

/-- The request for a page. -/
def Client.request {cfg : Config} (c : Client cfg) (limit : Int) (offset : ℕ) : Incoming where
  method := "GET"
  path := "/api/tasks"
  header := c.header
  query name :=
    if name = "limit" then toString limit else if name = "offset" then toString offset else ""
  body := c.body

/-- The surroundings of the control server while Postgres reads the table in the order of the
list. -/
def orderedEffect (order : List DBJob) : Effect Server.Op Server.Op.Response Server.Input Server
  | .listPaged limit offset, _, s => (.ok ((order.drop offset).take limit), s)
  | op, input, s => Server.effect op input s

/-- The jobs that answer request `k`, at the offset, when Postgres reads the table in the order
`orders k`. -/
def Client.page {cfg : Config} (c : Client cfg) (limit : Int) (inputs : ℕ → Server.Input)
    (s : Server) (orders : ℕ → List DBJob) (k offset : ℕ) : List DBJob :=
  match ((serve cfg (c.request limit offset)).run (orderedEffect (orders k)) inputs s).value with
  | .tasks jobs => jobs
  | _ => []

/-- The jobs of the table, in the order of the table. -/
abbrev Server.jobs (s : Server) : List DBJob := jobsWhere s.site.world.db fun _ => true

/-- The number of jobs on a page. A limit that `strconv.Atoi` refuses is left out. -/
def pageSize (limit : Int) : ℕ :=
  pageLimit (if -2 ^ 63 ≤ limit ∧ limit < 2 ^ 63 then limit else 100)

/-- The offset that the control server reads. One that `strconv.Atoi` refuses is left out. -/
def pageOffset (offset : ℕ) : ℕ := if offset < 2 ^ 63 then offset else 0

section Pages

variable {cfg : Config} (c : Client cfg) (limit : Int) (inputs : ℕ → Server.Input) (s : Server)

/-- A page has at least one job. -/
theorem page_size_pos (limit : Int) : 0 < pageSize limit := by
  unfold pageSize pageLimit
  split <;> (split; omega; split <;> omega)

/-- A number in the query of a request. -/
theorem query_int_to_string (n value : Int) :
    queryInt (toString n) value = if -2 ^ 63 ≤ n ∧ n < 2 ^ 63 then n else value := by
  have hread := atoi_to_string n
  have hnone : atoi "" = none := by decide
  unfold queryInt
  by_cases htext : toString n = ""
  · rw [htext, hnone] at hread
    rw [if_neg (not_not.mpr htext)]
    split at hread
    next => cases hread
    next hrange => rw [if_neg hrange]
  · rw [if_pos htext, hread]
    split <;> rfl

/-- The offset of a request. -/
theorem query_int_offset (offset : ℕ) :
    (queryInt (toString offset) 0).toNat = pageOffset offset := by
  have htext : toString offset = toString (offset : Int) := rfl
  rw [htext, query_int_to_string, pageOffset]
  split <;> split <;> omega

/-- The handler of the request asks for the page in one query. -/
theorem page_eq (orders : ℕ → List DBJob) (k offset : ℕ) :
    c.page limit inputs s orders k offset =
      ((orders k).drop (pageOffset offset)).take (pageSize limit) := by
  have hroute : mountHTTP (c.request limit offset).method (c.request limit offset).path =
      .handler .listTasks := by
    show mountHTTP "GET" "/api/tasks" = _
    decide
  have hcode : serve cfg (c.request limit offset) =
      Prog.call (.listPaged (pageLimit (queryInt (toString limit) 100))
        (queryInt (toString offset) 0).toNat) fun
          | .error e => pure (.error 500 ("db list failed: " ++ e))
          | .ok jobs => pure (.tasks jobs) := by
    have hauth : ¬ ¬ requireAuth cfg.env (c.request limit offset).bodiless :=
      not_not.mpr c.authorized
    have hget : ¬ (c.request limit offset).bodiless.method ≠ "GET" := not_not.mpr rfl
    unfold serve
    rw [hroute]
    show listTasksHandler cfg.env _ (c.request limit offset).bodiless = _
    unfold listTasksHandler
    have hlimit : (c.request limit offset).query "limit" = toString limit := by
      simp [Client.request]
    have hoffset : (c.request limit offset).query "offset" = toString offset := by
      simp [Client.request]
    rw [if_neg hauth, if_neg hget, hlimit, hoffset, Server.listPaged, Prog.perform_bind]
    refine congrArg (Prog.call _) (funext fun response => ?_)
    cases response <;> rfl
  unfold Client.page
  rw [hcode, query_int_to_string, query_int_offset]
  rfl

end Pages

/-! ## Every job once -/

/-- The order is one in which Postgres may read the table for a page: the newest jobs first. -/
def NewestFirst (s : Server) (order : List DBJob) : Prop :=
  Paging.Arranges DBJob.createdAt s.jobs order

/-- The jobs of the table have the ids of its rows. -/
theorem jobs_ids (s : Server) : s.jobs.map DBJob.id = s.site.world.db.keys := by
  unfold Server.jobs jobsWhere
  rw [List.filter_true, List.map_map]
  rfl

/-- An order of the table gives an answer of `ListPaged`. -/
theorem NewestFirst.result_set {s : Server} {order : List DBJob} (h : NewestFirst s order)
    (now : Time) (limit offset : Int) :
    (ListQuery.listPaged limit offset).ResultSet now s.site.world.db
      ((order.drop offset.toNat).take (pageLimit limit)) :=
  ⟨order, h.perm, h.sorted, rfl⟩

/-- The order in which the model of the control server reads the table is one of them. -/
theorem newest_first_paged (s : Server) :
    NewestFirst s (s.jobs.insertionSort fun a b => b.createdAt ≤ a.createdAt) ∧
      ∀ limit offset, pagedJobs limit offset s.site.world.db =
        ((s.jobs.insertionSort fun a b => b.createdAt ≤ a.createdAt).drop offset).take limit := by
  have htotal : Std.Total fun a b : DBJob => b.createdAt ≤ a.createdAt :=
    ⟨fun a b => Int.le_total b.createdAt a.createdAt⟩
  have htrans : IsTrans DBJob fun a b => b.createdAt ≤ a.createdAt :=
    ⟨fun a b c hab hbc => Int.le_trans hbc hab⟩
  refine ⟨⟨List.perm_insertionSort _ _, List.pairwise_insertionSort _ _⟩, fun limit offset => ?_⟩
  unfold pagedJobs Server.jobs jobsWhere
  rw [List.filter_true]

/-- The client gets every job exactly once: its walk ends, and the id of every row is once among the
jobs that it received. -/
def ReadsEveryJobOnce {cfg : Config} (c : Client cfg) (limit : Int) (inputs : ℕ → Server.Input)
    (s : Server) (orders : ℕ → List DBJob) : Prop :=
  ∃ k, Paging.EndsAt (c.page limit inputs s orders) k ∧ ∀ id ∈ s.site.world.db,
    ((Paging.received (c.page limit inputs s orders) k).map DBJob.id).count id = 1

section Walk

variable {cfg : Config} (c : Client cfg) (limit : Int) (inputs : ℕ → Server.Input) {s : Server}

/-- In a table of fewer than `2 ^ 63` rows the control server reads every offset that the client
sends. -/
theorem page_answers (hsize : s.jobs.length < 2 ^ 63) (orders : ℕ → List DBJob) :
    Paging.Answers (c.page limit inputs s orders) (pageSize limit) s.jobs.length orders := by
  intro k offset hoffset
  rw [page_eq, pageOffset, if_pos (by omega)]

/-- Beyond that no page is empty, because the control server starts over. -/
theorem page_ne_nil (hsize : 2 ^ 63 ≤ s.jobs.length) (orders : ℕ → List DBJob) (k : ℕ)
    (horder : NewestFirst s (orders k)) (offset : ℕ) :
    c.page limit inputs s orders k offset ≠ [] := by
  have hpos := page_size_pos limit
  have hoffset : pageOffset offset < (orders k).length := by
    rw [horder.perm.length_eq, pageOffset]
    split <;> omega
  rw [page_eq, ← List.length_pos_iff, List.length_take, List.length_drop]
  omega

/-- Where no page ends among jobs of one time, the client gets every job once. -/
theorem reads_every_job_once (hsize : s.jobs.length < 2 ^ 63)
    (hclean : ∀ k, Paging.Clean DBJob.createdAt s.jobs (k * pageSize limit))
    {orders : ℕ → List DBJob} (horders : ∀ k, NewestFirst s (orders k)) :
    ReadsEveryJobOnce c limit inputs s orders := by
  have hpage := page_answers c limit inputs hsize orders
  obtain ⟨k, hend, hlength⟩ := Paging.exists_ends horders (page_size_pos limit) hpage
  have hperm := Paging.received_perm horders hpage hclean (horders 0) k
  rw [List.take_of_length_le (by rw [(horders 0).perm.length_eq]; exact hlength)] at hperm
  refine ⟨k, hend, fun id hid => ?_⟩
  rw [((hperm.trans (horders 0).perm).map DBJob.id).count_eq, jobs_ids]
  exact List.count_eq_one_of_mem s.site.world.db.nodupKeys hid

/-- Where a page ends among jobs of one time, some orders show the client one job twice. -/
theorem reads_job_twice (hsize : s.jobs.length < 2 ^ 63) {k : ℕ}
    (hclean : ¬ Paging.Clean DBJob.createdAt s.jobs (k * pageSize limit)) :
    ∃ orders, (∀ k, NewestFirst s (orders k)) ∧ ¬ ReadsEveryJobOnce c limit inputs s orders := by
  obtain ⟨l, l', job, hl, hl', hbefore, hafter, hk⟩ := Paging.exists_swap hclean
  have horders : ∀ i, NewestFirst s (if i < k then l else l') := by
    intro i
    split
    · exact hl
    · exact hl'
  refine ⟨fun i => if i < k then l else l', horders, ?_⟩
  intro ⟨j, hend, honce⟩
  have hpage := page_answers c limit inputs hsize fun i => if i < k then l else l'
  have hj := (Paging.page_eq_nil_iff horders (page_size_pos limit) hpage j).mp hend.1
  have hid : job.id ∈ s.site.world.db := by
    have hjob : job ∈ s.jobs := hl.perm.mem_iff.mp (List.mem_of_mem_take hbefore)
    show job.id ∈ s.site.world.db.keys
    rw [← jobs_ids]
    exact List.mem_map_of_mem hjob
  have hcount := honce job.id hid
  rw [Paging.received_changed hl hl' hpage hj hk, List.map_append, List.count_append] at hcount
  have hfirst := List.count_pos_iff.mpr (List.mem_map_of_mem (f := DBJob.id) hbefore)
  have hsecond := List.count_pos_iff.mpr (List.mem_map_of_mem (f := DBJob.id) hafter)
  omega

/-- Whatever order Postgres reads the jobs of one time in, the client gets every job exactly once:
this holds exactly when no page ends among jobs of one time, in a table whose offsets are in the
range of `strconv.Atoi`. -/
theorem paging_exact_iff (s : Server) :
    (∀ orders, (∀ k, NewestFirst s (orders k)) → ReadsEveryJobOnce c limit inputs s orders) ↔
      s.jobs.length < 2 ^ 63 ∧
        ∀ k, Paging.Clean DBJob.createdAt s.jobs (k * pageSize limit) := by
  constructor
  · intro h
    have hsize : s.jobs.length < 2 ^ 63 := by
      by_contra hlarge
      obtain ⟨l, hl⟩ := Paging.exists_arranges DBJob.createdAt s.jobs
      obtain ⟨k, hend, -⟩ := h (fun _ => l) fun _ => hl
      exact page_ne_nil c limit inputs (by omega) (fun _ => l) k hl _ hend.1
    refine ⟨hsize, fun k => ?_⟩
    by_contra hclean
    obtain ⟨orders, horders, hnot⟩ := reads_job_twice c limit inputs hsize hclean
    exact hnot (h orders horders)
  · intro ⟨hsize, hclean⟩ orders horders
    exact reads_every_job_once c limit inputs hsize hclean horders

end Walk

namespace Sample

/-- A second job of the same time as `posted`. -/
def twin : DBJob := ⟨"twin", "alpine", none, .queued, 1, 0⟩

/-- A control server with two jobs of one time. -/
def twins : Server where
  site := { Site.empty with
    world.db := (Store.play [(.createJob Store.Sample.job, { now := 1 }),
      (.createJob twin, { now := 1 })]).2 }
  ws _ := ⟨none, none⟩
  wsToken _ := ⟨none, none⟩

/-- A client of a control server that asks for no token. -/
def reader : Client setup where
  header _ := ""
  body := ⟨.error "", .error "", .error "", .error "", .error "", .error ""⟩
  authorized := rfl

/-- The order of the two jobs changes after the first page. -/
def turned (k : ℕ) : List DBJob :=
  if k = 0 then [Store.Sample.job, twin] else [twin, Store.Sample.job]

end Sample

/-- Two jobs of one time, read in pages of one job: the client gets the first job twice and the
second one not at all. -/
theorem page_repeats_job :
    let page := Sample.reader.page 1 (fun _ => { now := 1 }) Sample.twins Sample.turned
    Sample.twins.site.world.db.keys = ["twin", "job"] ∧
      (∀ k, NewestFirst Sample.twins (Sample.turned k)) ∧ Paging.EndsAt page 2 ∧
      (Paging.received page 2).map DBJob.id = ["job", "job"] := by
  intro page
  have hpage : page = fun k offset =>
      ((Sample.turned k).drop (pageOffset offset)).take (pageSize 1) := by
    funext k offset
    exact page_eq ..
  have horders : ∀ k, NewestFirst Sample.twins (Sample.turned k) := by
    intro k
    unfold Sample.turned NewestFirst
    split
    · exact ⟨by decide, by decide⟩
    · exact ⟨by decide, by decide⟩
  rw [hpage]
  refine ⟨by decide, horders, ⟨by decide, by decide⟩, by decide⟩

end MutualCloud.Control
