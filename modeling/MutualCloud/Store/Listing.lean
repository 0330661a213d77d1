import MutualCloud.Store.PGStore
import MutualCloud.Store.Runs

/-!
# Queries that return many rows

Six methods of `internal/lease/pg_store.go` read the rows of a query one after another. `Next` of
`database/sql` returns false after the last row, and also when the connection breaks on the way;
only `rows.Err()` tells the two apart, and no method calls it. So a method can return nil with a
part of the rows: `list_complete_iff` says that this happens exactly when the stream is cut short.

The result set of a query is a relation: where the statement fixes no order, every order will do.
-/

namespace MutualCloud.Store

open Go KeyedTable

/-! ## Rows -/

/-- The rows of a query, as `Next` and `Scan` give them. -/
inductive RowStream (ρ : Type) where
  /-- `Next` returns false, and `Err` nil. -/
  | ended
  /-- `Next` returns false, and `Err` the error. -/
  | broken (e : SqlError)
  /-- `Next` returns true, and `Scan` the columns of the row, or an error. -/
  | row (columns : Except SqlError ρ) (rest : RowStream ρ)

namespace RowStream

variable {ρ β : Type}

/-- The stream is one of the result set: it gives the rows in order, as far as it goes. -/
def Of : RowStream ρ → List ρ → Prop
  | ended, rows => rows = []
  | broken _, _ => True
  | row _ _, [] => False
  | row columns rest, r :: rows => (∀ r', columns = .ok r' → r' = r) ∧ rest.Of rows

/-- The stream breaks before a row of the result set, and no `Scan` fails before. -/
def CutShort : RowStream ρ → List ρ → Prop
  | ended, _ => False
  | broken _, rows => rows ≠ []
  | row (.error _) _, _ => False
  | row (.ok _) _, [] => False
  | row (.ok _) rest, _ :: rows => rest.CutShort rows

/-- The loop `for rows.Next()` of the methods, which ends in the same way at the last row and at a
stream that is broken. -/
def scanLoop (add : β → ρ → β) : β → RowStream ρ → Except SqlError β
  | out, ended | out, broken _ => .ok out
  | _, row (.error e) _ => .error e
  | out, row (.ok r) rest => scanLoop add (add out r) rest

/-- A method: the query, and the loop over its rows. -/
def query (add : β → ρ → β) (out : β) : Except SqlError (RowStream ρ) → Except SqlError β
  | .error e => .error e
  | .ok stream => scanLoop add out stream

/-- A method that appends the rows to a slice. -/
def collect : Except SqlError (RowStream ρ) → Except SqlError (List ρ) :=
  query (fun out r => out ++ [r]) []

/-- `ListExpiredLeases`. -/
def listExpiredLeases : Except SqlError (RowStream String) → Except SqlError (List String) :=
  collect

/-- `ListQueued`. -/
def listQueued : Except SqlError (RowStream DBJob) → Except SqlError (List DBJob) := collect

/-- `ListManifestMissingSince`. -/
def listManifestMissingSince : Except SqlError (RowStream String) → Except SqlError (List String) :=
  collect

/-- `ListAll`. -/
def listAll : Except SqlError (RowStream DBJob) → Except SqlError (List DBJob) := collect

/-- `ListPaged`. -/
def listPaged : Except SqlError (RowStream DBJob) → Except SqlError (List DBJob) := collect

/-- `CountByStatus`, which fills a map. -/
def countByStatus :
    Except SqlError (RowStream (JobStatus × Int)) → Except SqlError (JobStatus → Option Int) :=
  query (fun out r => Function.update out r.1 (some r.2)) fun _ => none

/-- The rows that the loop of a method gets to see, or the error of the first `Scan` that fails. -/
def scanned : RowStream ρ → Except SqlError (List ρ)
  | ended | broken _ => .ok []
  | row (.error e) _ => .error e
  | row (.ok r) rest => rest.scanned.map (r :: ·)

/-- The loop folds the rows that it gets to see. -/
theorem scan_loop_eq (add : β → ρ → β) (out : β) (stream : RowStream ρ) :
    scanLoop add out stream = stream.scanned.map fun rows => rows.foldl add out := by
  induction stream generalizing out with
  | ended | broken => rfl
  | row columns rest ih =>
      cases columns with
      | error e => rfl
      | ok r =>
          rw [scanLoop, ih, scanned]
          cases rest.scanned <;> rfl

/-- The loop that appends returns the rows that it gets to see. -/
theorem collect_eq (stream : RowStream ρ) : collect (.ok stream) = stream.scanned := by
  have hfold : ∀ out rows : List ρ, rows.foldl (fun out r => out ++ [r]) out = out ++ rows := by
    intro out rows
    induction rows generalizing out with
    | nil => simp
    | cons r rest ih => simp [ih]
  show scanLoop _ [] stream = _
  rw [scan_loop_eq]
  simp only [hfold, List.nil_append]
  cases stream.scanned <;> rfl

/-- The stream that gives all rows. -/
def whole (rows : List ρ) : RowStream ρ := rows.foldr (fun r rest => row (.ok r) rest) ended

/-- A stream that gives all rows is read to its end. -/
@[simp] theorem collect_whole (rows : List ρ) : collect (.ok (whole rows)) = .ok rows := by
  rw [collect_eq]
  induction rows with
  | nil => rfl
  | cons r rest ih =>
      show (whole rest).scanned.map (r :: ·) = _
      rw [ih]
      rfl

/-- A stream that is not cut short gives all rows, unless a `Scan` fails. -/
theorem scanned_of_not_cut {stream : RowStream ρ} {rows got : List ρ} (h : stream.Of rows)
    (hcut : ¬ stream.CutShort rows) (hgot : stream.scanned = .ok got) : got = rows := by
  induction stream generalizing rows got with
  | ended =>
      obtain rfl : rows = [] := h
      exact (Except.ok.inj hgot).symm
  | broken e =>
      obtain rfl : rows = [] := not_not.mp hcut
      exact (Except.ok.inj hgot).symm
  | row columns rest ih =>
      cases columns with
      | error e => cases hgot
      | ok r =>
          cases rows with
          | nil => exact h.elim
          | cons r' rows =>
              obtain ⟨hr, hrest⟩ := h
              rw [scanned] at hgot
              cases hscan : rest.scanned with
              | error e =>
                  rw [hscan] at hgot
                  cases hgot
              | ok got' =>
                  rw [hscan] at hgot
                  rw [← Except.ok.inj hgot, hr r rfl, ih hrest hcut hscan]

/-- A stream that is cut short gives some first rows, and not all. -/
theorem scanned_of_cut {stream : RowStream ρ} {rows : List ρ} (h : stream.Of rows)
    (hcut : stream.CutShort rows) :
    ∃ got r rest, stream.scanned = .ok got ∧ rows = got ++ r :: rest := by
  induction stream generalizing rows with
  | ended => exact hcut.elim
  | broken e =>
      obtain ⟨r, rest, hrows⟩ := List.exists_cons_of_ne_nil hcut
      exact ⟨[], r, rest, rfl, hrows⟩
  | row columns rest ih =>
      cases columns with
      | error e => exact hcut.elim
      | ok r =>
          cases rows with
          | nil => exact h.elim
          | cons r' rows =>
              obtain ⟨hr, hrest⟩ := h
              obtain ⟨got, r'', rest', hgot, hrows⟩ := ih hrest hcut
              refine ⟨r :: got, r'', rest', ?_, ?_⟩
              · rw [scanned, hgot]
                rfl
              · rw [hrows, hr r rfl]
                rfl

end RowStream

/-! ## Queries and their result sets -/

/-- The number of rows that `ListPaged` asks for. -/
def pageLimit (limit : Int) : ℕ :=
  if limit ≤ 0 then 100 else if limit > 1000 then 1000 else limit.toNat

/-- The condition of `ListManifestMissingSince`: the column `metrics` is an object whose field
`reason` is the text `manifest_not_found`. -/
def Row.ManifestMissing (cutoff : Time) (row : Row) : Prop :=
  row.status = .failed ∧
    (row.metrics.join.bind fun fields => fields.lookup "reason") =
      some "\"manifest_not_found\"" ∧
    row.createdAt ≤ cutoff

instance (cutoff : Time) : DecidablePred (Row.ManifestMissing cutoff) :=
  fun _ => inferInstanceAs (Decidable (_ ∧ _ ∧ _))

/-- The jobs whose rows satisfy the condition. -/
def jobsWhere (db : DemandJobs) (keep : Row → Bool) : List DBJob :=
  (db.entries.filter fun entry => keep entry.2).map fun entry => Stmt.selectJob entry.1 entry.2

/-- The ids of the rows that satisfy the condition. -/
def idsWhere (db : DemandJobs) (keep : Row → Bool) : List String :=
  (db.entries.filter fun entry => keep entry.2).map Sigma.fst

/-- The queries of the six methods, with their arguments. -/
inductive ListQuery where
  | listExpiredLeases
  | listQueued
  | listManifestMissingSince (cutoff : Time)
  | listAll
  | listPaged (limit offset : Int)
  | countByStatus

namespace ListQuery

/-- The columns of a row of the result set. -/
abbrev Columns : ListQuery → Type
  | listExpiredLeases | listManifestMissingSince _ => String
  | listQueued | listAll | listPaged _ _ => DBJob
  | countByStatus => JobStatus × Int

/-- What the method returns. -/
abbrev Result : ListQuery → Type
  | listExpiredLeases | listManifestMissingSince _ => List String
  | listQueued | listAll | listPaged _ _ => List DBJob
  | countByStatus => JobStatus → Option Int

/-- The method, from the answer to its query on. -/
def method : (q : ListQuery) → Except SqlError (RowStream q.Columns) → Except SqlError q.Result
  | listExpiredLeases => RowStream.listExpiredLeases
  | listQueued => RowStream.listQueued
  | listManifestMissingSince _ => RowStream.listManifestMissingSince
  | listAll => RowStream.listAll
  | listPaged _ _ => RowStream.listPaged
  | countByStatus => RowStream.countByStatus

/-- The rows are a result set of the query, evaluated at time `now`. -/
def ResultSet (now : Time) (db : DemandJobs) : (q : ListQuery) → List q.Columns → Prop
  | listExpiredLeases, rows => rows.Perm (idsWhere db fun row => row.Expired now)
  | listQueued, rows =>
      -- the statement does not select `retry_count`
      rows.Perm ((jobsWhere db fun row => row.status = .queued).map
        fun job => { job with retryCount := 0 }) ∧
      rows.Pairwise fun a b => a.createdAt ≤ b.createdAt
  | listManifestMissingSince cutoff, rows =>
      rows.Perm (idsWhere db fun row => row.ManifestMissing cutoff)
  | listAll, rows =>
      rows.Perm (jobsWhere db fun _ => true) ∧
      rows.Pairwise fun a b => a.createdAt ≤ b.createdAt
  | listPaged limit offset, rows =>
      ∃ all : List DBJob, all.Perm (jobsWhere db fun _ => true) ∧
        (all.Pairwise fun a b => b.createdAt ≤ a.createdAt) ∧
        rows = (all.drop offset.toNat).take (pageLimit limit)
  | countByStatus, rows =>
      (rows.map Prod.fst).Nodup ∧ ∀ r : JobStatus × Int, r ∈ rows ↔
        r.2 = (jobsWhere db fun row => row.status = r.1).length ∧ r.2 ≠ 0

/-- The result of the method has an entry for every row, in order. -/
def Complete : (q : ListQuery) → List q.Columns → q.Result → Prop
  | listExpiredLeases, rows, ids | listManifestMissingSince _, rows, ids =>
      rows.Sublist (ids : List String)
  | listQueued, rows, jobs | listAll, rows, jobs | listPaged _ _, rows, jobs =>
      rows.Sublist (jobs : List DBJob)
  | countByStatus, rows, counts => ∀ r ∈ rows, (counts : JobStatus → Option Int) r.1 = some r.2

end ListQuery

/-- A query on the table, with the answer of the database. -/
structure Reading (q : ListQuery) (now : Time) (db : DemandJobs) where
  rows : List q.Columns
  resultSet : q.ResultSet now db rows
  answer : Except SqlError (RowStream q.Columns)
  delivered : ∀ stream, answer = .ok stream → stream.Of rows

/-- The statement `listExpiredLeases` is the case in which the stream gives all rows. -/
theorem list_expired_leases_whole (now : Time) (db : DemandJobs) :
    (Stmt.listExpiredLeases.exec now db).1 =
      RowStream.listExpiredLeases (.ok (.whole (idsWhere db fun row => row.Expired now))) :=
  (RowStream.collect_whole _).symm

/-! ## Complete results -/

/-- A slice is complete unless the stream is cut short. -/
theorem collect_complete_iff {ρ : Type} {stream : RowStream ρ} {rows : List ρ}
    (h : stream.Of rows) :
    (∀ result, RowStream.collect (.ok stream) = .ok result → rows.Sublist result) ↔
      ¬ stream.CutShort rows := by
  rw [RowStream.collect_eq]
  constructor
  · intro hcomplete hcut
    obtain ⟨got, r, rest, hgot, hrows⟩ := RowStream.scanned_of_cut h hcut
    have hlength := (hcomplete got hgot).length_le
    rw [hrows, List.length_append, List.length_cons] at hlength
    omega
  · intro hcut result hresult
    rw [RowStream.scanned_of_not_cut h hcut hresult]

/-- The map that `CountByStatus` fills, row by row. -/
def countsOf (rows : List (JobStatus × Int)) : JobStatus → Option Int :=
  rows.foldl (fun out r => Function.update out r.1 (some r.2)) fun _ => none

/-- A status has the last of its counts. -/
theorem counts_of_snoc (rows : List (JobStatus × Int)) (r : JobStatus × Int) :
    countsOf (rows ++ [r]) = Function.update (countsOf rows) r.1 (some r.2) := by
  simp [countsOf]

/-- The map has no status but those of the rows. -/
theorem counts_of_eq_none {rows : List (JobStatus × Int)} {status : JobStatus}
    (h : status ∉ rows.map Prod.fst) : countsOf rows status = none := by
  induction rows using List.reverseRecOn with
  | nil => rfl
  | append_singleton rows r ih =>
      rw [List.map_append, List.mem_append, not_or] at h
      have hne : status ≠ r.1 := fun heq => h.2 (by simp [heq])
      rw [counts_of_snoc, Function.update_of_ne hne]
      exact ih h.1

/-- The map has every row, if each status has one. -/
theorem counts_of_mem {rows : List (JobStatus × Int)} (hnodup : (rows.map Prod.fst).Nodup)
    {r : JobStatus × Int} (hr : r ∈ rows) : countsOf rows r.1 = some r.2 := by
  induction rows using List.reverseRecOn with
  | nil => cases hr
  | append_singleton rows last ih =>
      rw [List.map_append, List.nodup_append] at hnodup
      rw [counts_of_snoc]
      rcases List.mem_append.mp hr with hr | hr
      · have hne : r.1 ≠ last.1 :=
          hnodup.2.2 r.1 (List.mem_map_of_mem hr) last.1 (by simp)
        rw [Function.update_of_ne hne]
        exact ih hnodup.1 hr
      · obtain rfl := List.mem_singleton.mp hr
        exact Function.update_self ..

/-- A map is complete unless the stream is cut short: no other row has the status of a missing
one. -/
theorem count_complete_iff {stream : RowStream (JobStatus × Int)} {rows : List (JobStatus × Int)}
    (h : stream.Of rows) (hnodup : (rows.map Prod.fst).Nodup) :
    (∀ counts, RowStream.countByStatus (.ok stream) = .ok counts →
      ∀ r ∈ rows, counts r.1 = some r.2) ↔ ¬ stream.CutShort rows := by
  have heq : RowStream.countByStatus (.ok stream) = stream.scanned.map countsOf :=
    RowStream.scan_loop_eq _ _ stream
  rw [heq]
  constructor
  · intro hcomplete hcut
    obtain ⟨got, r, rest, hgot, hrows⟩ := RowStream.scanned_of_cut h hcut
    rw [hgot] at hcomplete
    have hfound := hcomplete _ rfl r (by simp [hrows])
    have hmissing : r.1 ∉ got.map Prod.fst := by
      rw [hrows, List.map_append, List.nodup_append] at hnodup
      exact fun hmem => hnodup.2.2 r.1 hmem r.1 (by simp) rfl
    rw [counts_of_eq_none hmissing] at hfound
    cases hfound
  · intro hcut counts hcounts
    cases hgot : stream.scanned with
    | error e =>
        rw [hgot] at hcounts
        cases hcounts
    | ok got =>
        rw [hgot] at hcounts
        obtain rfl := Except.ok.inj hcounts
        obtain rfl := RowStream.scanned_of_not_cut h hcut hgot
        exact fun r hr => counts_of_mem hnodup hr

/-- A method that returns nil returns an entry for every row of the result set, exactly when the
stream of the rows is not cut short. -/
theorem list_complete_iff {q : ListQuery} {now : Time} {db : DemandJobs} (r : Reading q now db) :
    (∀ result, q.method r.answer = .ok result → q.Complete r.rows result) ↔
      ∀ stream, r.answer = .ok stream → ¬ stream.CutShort r.rows := by
  obtain ⟨rows, hset, answer, hof⟩ := r
  dsimp only
  cases answer with
  | error e =>
      have herror : q.method (.error e) = .error e := by cases q <;> rfl
      rw [herror]
      exact iff_of_true nofun nofun
  | ok stream =>
      have hstream := hof stream rfl
      have hcut : (∀ s, (.ok stream : Except SqlError _) = .ok s → ¬ s.CutShort rows) ↔
          ¬ stream.CutShort rows :=
        ⟨fun h => h stream rfl, fun h s hs => Except.ok.inj hs ▸ h⟩
      rw [hcut]
      cases q with
      | listExpiredLeases | listManifestMissingSince | listQueued | listAll | listPaged =>
          exact collect_complete_iff hstream
      | countByStatus => exact count_complete_iff hstream hset.1

namespace Sample

/-- A second queued job. -/
def laterJob : DBJob := ⟨"later", "alpine", none, .queued, 2, 0⟩

/-- The table with the two jobs. -/
def twoJobs : DemandJobs :=
  (play [(.createJob job, { now := 1 }), (.createJob laterJob, { now := 2 })]).2

/-- `ListQueued` on the table. The connection breaks after the first row. -/
def halfRead : Reading .listQueued 3 twoJobs where
  rows := [job, laterJob]
  resultSet := by
    refine ⟨?_, ?_⟩
    · show List.Perm [job, laterJob] _
      decide
    · simp [job, laterJob]
  answer := .ok (.row (.ok job) (.broken "unexpected EOF"))
  delivered := by
    intro stream hstream
    obtain rfl := Except.ok.inj hstream
    exact ⟨fun _ h => (Except.ok.inj h).symm, trivial⟩

end Sample

/-- The connection breaks after the first of two queued jobs: `ListQueued` returns nil and the
first job, and the second is missing. -/
theorem broken_list_succeeds :
    ListQuery.listQueued.method Sample.halfRead.answer = .ok [Sample.job] ∧
      ¬ ListQuery.listQueued.Complete Sample.halfRead.rows [Sample.job] := by
  refine ⟨rfl, fun h => ?_⟩
  exact absurd (List.Sublist.length_le h) (by decide)

end MutualCloud.Store
