import MutualCloud.Control.Announce
import MutualCloud.Control.Copies

/-!
# What a rejected manifest leaves behind

`manifestHandler` checks a request, puts the manifest, puts its mirror, writes the columns of the
row and announces the job again, in this order. The first error ends the request, and nothing
undoes what was written before it: a manifest for a job without a row is stored, mirrored and then
rejected. Nor does a put that fails undo its own record, which the node of the control server may
have stored before it looked for peers. `rejected_upload_iff` says when a rejected request leaves
everything as it was.
-/

namespace MutualCloud.Control

open Go KeyedTable Interaction Labelled Store

/-! ## What an upload writes -/

/-- Everything that an upload for a job writes: every copy of its manifest and of the mirror of it,
the manifest columns of its row, and the announcement queue. -/
@[ext] structure UploadTrace where
  manifest : Copies TaskManifest
  mirror : Copies String
  columns : Option (Option String × Option Strings × Option String)
  dirty : List String
  trigger : Bool

/-- What there is of the uploads for a job. -/
def Node.uploadTrace (s : Node) (id : String) : UploadTrace where
  manifest := s.keys (.manifest id)
  mirror := s.mirror (.manifestMirror id)
  columns := (s.db.lookup id).map fun row =>
    (row.manifestRootCID, row.manifestProviders, row.manifestEncMeta)
  dirty := s.dirty
  trigger := s.trigger

/-! ## The writes of an accepted request -/

/-- The three writes after the checks, each with the input that it is made under. -/
structure Upload where
  manifest : TaskManifest
  manifestInput : Node.Input
  mirror : String
  mirrorInput : Node.Input
  attachInput : Node.Input

/-- The time of the stored manifest. -/
def ManifestIn.time (body : ManifestIn) (inputs : ℕ → Node.Input) : Time :=
  if body.updatedAt = 0 then (inputs 0).now else body.updatedAt

/-- The number of the step that puts the manifest: the clock is read first when the request has no
time. -/
def ManifestIn.start (body : ManifestIn) : ℕ := if body.updatedAt = 0 then 1 else 0

/-- The writes of a request under its inputs. A put without peers makes two steps. -/
def upload (cfg : Config) (body : ManifestIn) (inputs : ℕ → Node.Input) : Upload :=
  let first := inputs body.start
  let next := body.start + if first.mode = .alone then 2 else 1
  { manifest := body.manifest (body.time inputs)
    manifestInput := first
    mirror := cfg.mirrorText body.providers ((inputs next).now + 2 * 60 * second)
    mirrorInput := inputs (next + 1)
    attachInput := inputs (next + 2) }

namespace Upload

/-- All three writes succeed: the puts do not fail, and the job has a row. -/
def Succeeds (u : Upload) (db : DemandJobs) (id : String) : Prop :=
  u.manifestInput.mode ≠ .failed ∧ u.mirrorInput.mode ≠ .failed ∧ u.attachInput.fault = none ∧
    db.lookup id ≠ none

/-- Every copy that a put writes has what is put already. The mirror is put unless the put of the
manifest fails. -/
def Repeats (u : Upload) (t : UploadTrace) : Prop :=
  t.manifest.Holds u.manifestInput u.manifest ∧
    (u.manifestInput.mode ≠ .failed → t.mirror.Holds u.mirrorInput u.mirror)

/-- What a request that does not succeed leaves of the trace of its job. -/
def left (u : Upload) (t : UploadTrace) : UploadTrace :=
  { t with
    manifest := t.manifest.putJSON u.manifestInput u.manifest
    mirror := if u.manifestInput.mode = .failed then t.mirror
      else t.mirror.putJSON u.mirrorInput u.mirror }

/-- Nothing is left exactly when every copy that is written had what is put. -/
theorem left_eq_iff {u : Upload} {t : UploadTrace} : u.left t = t ↔ u.Repeats t := by
  unfold left Repeats
  rw [UploadTrace.ext_iff]
  by_cases hfailed : u.manifestInput.mode = .failed <;> simp [hfailed, Copies.put_json_eq_iff]

end Upload

section Run

variable (cfg : Config) (id : String) (body : ManifestIn)

/-- What other copies of the manifest change in the trace of a job. -/
theorem set_manifest_trace (s : Node) (c : Copies TaskManifest) (id' : String) :
    (s.setKey (.manifest id) c).uploadTrace id' =
      if id' = id then { s.uploadTrace id' with manifest := c } else s.uploadTrace id' := by
  split
  next hid =>
    subst hid
    exact UploadTrace.ext (Function.update_self ..) rfl rfl rfl rfl
  next hid =>
    have hne : DirKey.manifest id' ≠ .manifest id := fun h => hid (DirKey.manifest.inj h)
    exact UploadTrace.ext (Function.update_of_ne hne ..) rfl rfl rfl rfl

/-- What other copies of the mirror change in the trace of a job. -/
theorem set_mirror_trace (s : Node) (c : Copies String) (id' : String) :
    (s.setMirror (.manifestMirror id) c).uploadTrace id' =
      if id' = id then { s.uploadTrace id' with mirror := c } else s.uploadTrace id' := by
  split
  next hid =>
    subst hid
    exact UploadTrace.ext rfl (Function.update_self ..) rfl rfl rfl
  next hid =>
    have hne : DhtKey.manifestMirror id' ≠ .manifestMirror id :=
      fun h => hid (DhtKey.manifestMirror.inj h)
    exact UploadTrace.ext rfl (Function.update_of_ne hne ..) rfl rfl rfl

/-- The statement of `AttachManifest` changes nothing and is reported as an error, or it succeeds
on the row that is there. -/
theorem attach_effect (m : Manifest) (input : Node.Input) (s : Node) :
    if input.fault = none ∧ s.db.lookup id ≠ none then
      ∃ s', Node.effect (.base (.sql (.attachManifest id m))) input s = (.ok (1 : ℕ), s')
    else ∃ response e, PGStore.requireRow .jobNotFound response = .error e ∧
      Node.effect (.base (.sql (.attachManifest id m))) input s = (response, s) := by
  have hanswer : Node.effect (.base (.sql (.attachManifest id m))) input s =
      ((Store.effect (.attachManifest id m) input.toInput s.db).1, { s with
        db := (Store.effect (.attachManifest id m) input.toInput s.db).2 }) := rfl
  rw [hanswer]
  unfold Store.effect
  cases input.fault with
  | some e => exact ⟨.error e, .sql e, rfl, rfl⟩
  | none =>
      cases hrow : s.db.lookup id with
      | none =>
          have hexec : (Stmt.attachManifest id m).exec input.now s.db = (.ok (0 : ℕ), s.db) := by
            rw [Stmt.exec, update_of_no_match (by simp [hrow])]
            rfl
          rw [if_neg (by simp), hexec]
          exact ⟨.ok 0, .jobNotFound, rfl, rfl⟩
      | some row =>
          have hexec : ((Stmt.attachManifest id m).exec input.now s.db).1 = .ok (1 : ℕ) := by
            rw [Stmt.exec, update_of_match hrow trivial]
            rfl
          rw [if_pos (by simp), hexec]
          exact ⟨_, rfl⟩

/-- The columns are written and the request is answered by 204, or nothing is changed. -/
theorem attach_columns_run (inputs : ℕ → Node.Input) (s : Node) :
    let run := (attachColumns id body).run Node.effect inputs s
    (run.value = .noContent ↔ (inputs 0).fault = none ∧ s.db.lookup id ≠ none) ∧
    (run.value ≠ .noContent → run.state = s) := by
  have hcase := attach_effect id
    ⟨body.rootCID, some (body.providers.map Provider.peerID), body.encMeta⟩ (inputs 0) s
  simp only [attachColumns, PGStore.attachManifest, store, Site.lift, Prog.perform_bind,
    Prog.embed, Prog.pure_eq_done, Prog.done_bind, Prog.call_bind, Prog.run]
  split at hcase
  next hrow =>
    obtain ⟨s', hanswer⟩ := hcase
    rw [hanswer]
    exact ⟨iff_of_true rfl hrow, fun hvalue => absurd rfl hvalue⟩
  next hrow =>
    obtain ⟨response, e, herror, hanswer⟩ := hcase
    rw [hanswer]
    simp only [herror]
    have hne : Reply.error 500 ("db attach manifest failed: " ++ e.text) ≠ .noContent := by simp
    exact ⟨iff_of_false hne hrow, fun _ => rfl⟩

/-- What `manifestHandler` does after the manifest is stored: it answers 204 when the mirror is put
and the row is there, and leaves the mirror otherwise. -/
theorem attach_manifest_run (inputs : ℕ → Node.Input) (s : Node) :
    let run := (attachManifest cfg id body).run Node.effect inputs s
    let text := cfg.mirrorText body.providers ((inputs 0).now + 2 * 60 * second)
    (run.value = .noContent ↔ (inputs 1).mode ≠ .failed ∧ (inputs 2).fault = none ∧
      s.db.lookup id ≠ none) ∧
    (run.value ≠ .noContent → run.state = s.setMirror (.manifestMirror id)
      ((s.mirror (.manifestMirror id)).putJSON (inputs 1) text)) := by
  intro run text
  let s' := s.setMirror (.manifestMirror id)
    ((s.mirror (.manifestMirror id)).putJSON (inputs 1) text)
  let rest := (afterMirror id body (inputs 1).putError).run Node.effect (fun n => inputs (n + 2)) s'
  have hrun : run.value = rest.value ∧ run.state = rest.state := ⟨rfl, rfl⟩
  rw [hrun.1, hrun.2]
  by_cases hmode : (inputs 1).mode = .failed
  · have hrest : rest = ⟨.error 500 ("mirror store error: " ++ (inputs 1).netError), [], s'⟩ := by
      show (afterMirror id body (inputs 1).putError).run _ _ _ = _
      rw [Site.Input.putError, if_pos hmode]
      rfl
    rw [hrest]
    exact ⟨iff_of_false (by simp) fun h => h.1 hmode, fun _ => rfl⟩
  · have hrest : rest = (attachColumns id body).run Node.effect (fun n => inputs (n + 2)) s' := by
      show (afterMirror id body (inputs 1).putError).run _ _ _ = _
      rw [Site.Input.putError, if_neg hmode]
      rfl
    obtain ⟨hcode, hkept⟩ := attach_columns_run id body (fun n => inputs (n + 2)) s'
    rw [hrest, hcode]
    exact ⟨⟨fun h => ⟨hmode, h⟩, fun h => h.2⟩, hkept⟩

/-- The time of the manifest, and the steps that it takes. -/
theorem manifest_time_run (inputs : ℕ → Node.Input) (s : Node) :
    let run := (manifestTime body).run Node.effect inputs s
    run.value = body.time inputs ∧ run.state = s ∧ run.events.length = body.start := by
  unfold manifestTime ManifestIn.time ManifestIn.start
  by_cases htime : body.updatedAt = 0
  · simp only [if_pos htime]
    exact ⟨rfl, rfl, rfl⟩
  · simp only [if_neg htime]
    exact ⟨rfl, rfl, rfl⟩

/-- After the put of its manifest a request goes on as `afterManifest` does. -/
theorem store_manifest_rest (inputs : ℕ → Node.Input) (s : Node) :
    let run := (storeManifest cfg id body).run Node.effect inputs s
    let u := upload cfg body inputs
    let next := body.start + if u.manifestInput.mode = .alone then 2 else 1
    let rest := (afterManifest cfg id body u.manifestInput.putError).run Node.effect
      (fun n => inputs (next + n)) (s.setKey (.manifest id)
        ((s.keys (.manifest id)).putJSON u.manifestInput u.manifest))
    run.value = rest.value ∧ run.state = rest.state := by
  intro run u next rest
  obtain ⟨htime, hclock, hstart⟩ := manifest_time_run body inputs s
  obtain ⟨herror, hput, hlength⟩ := Node.put_json_run (.manifest id)
    (body.manifest (body.time inputs)) (fun n => inputs (n + body.start)) s
  have hinput : inputs (0 + body.start) = u.manifestInput := congrArg inputs (Nat.zero_add _)
  have hshift : (fun n => inputs (n + (if u.manifestInput.mode = .alone then 2 else 1) +
      body.start)) = fun n => inputs (next + n) := by
    funext n
    exact congrArg inputs (by omega)
  rw [hinput] at herror hput hlength
  have hrun : run = (manifestTime body >>= fun time =>
      Site.putJSON (.manifest id) (body.manifest time) >>= afterManifest cfg id body).run
        Node.effect inputs s := rfl
  rw [hrun, Prog.run_bind]
  simp only [htime, hclock, hstart]
  rw [Prog.run_bind]
  simp only [herror, hput, hlength, hshift]
  exact ⟨rfl, rfl⟩

/-- What `manifestHandler` does after its checks: it answers 204 exactly when the three writes
succeed, and leaves otherwise what was put before the error. -/
theorem store_manifest_run (inputs : ℕ → Node.Input) (s : Node) :
    let run := (storeManifest cfg id body).run Node.effect inputs s
    let u := upload cfg body inputs
    (run.value = .noContent ↔ u.Succeeds s.db id) ∧
    (run.value ≠ .noContent → ∀ id', run.state.uploadTrace id' =
      if id' = id then u.left (s.uploadTrace id') else s.uploadTrace id') := by
  intro run u
  obtain ⟨hvalue, hstate⟩ := store_manifest_rest cfg id body inputs s
  let s' := s.setKey (.manifest id) ((s.keys (.manifest id)).putJSON u.manifestInput u.manifest)
  have hput := set_manifest_trace id s ((s.keys (.manifest id)).putJSON u.manifestInput u.manifest)
  rw [hvalue, hstate]
  by_cases hmode : u.manifestInput.mode = .failed
  · have herror : u.manifestInput.putError = some u.manifestInput.netError := if_pos hmode
    rw [herror]
    refine ⟨iff_of_false nofun fun h => h.1 hmode, fun _ id' => ?_⟩
    refine (hput id').trans (ite_congr rfl (fun hid => ?_) fun _ => rfl)
    subst hid
    rw [Upload.left, if_pos hmode]
    rfl
  · have herror : u.manifestInput.putError = none := if_neg hmode
    rw [herror]
    obtain ⟨hcode, hleft⟩ := attach_manifest_run cfg id body
      (fun n => inputs (body.start + (if u.manifestInput.mode = .alone then 2 else 1) + n)) s'
    refine ⟨hcode.trans ⟨fun h => ⟨hmode, h⟩, fun h => h.2⟩, fun hrejected id' => ?_⟩
    refine (congrArg (Node.uploadTrace · id') (hleft hrejected)).trans ?_
    rw [set_mirror_trace id s', hput id']
    split
    next hid =>
      subst hid
      rw [Upload.left, if_neg hmode]
      rfl
    next => rfl

end Run

/-- A rejected upload leaves everything as it was exactly when it fails its checks, or succeeds, or
every copy that it wrote had what is put already: that of a put that failed too, when the node had
stored the record before it failed. -/
theorem rejected_upload_iff (cfg : Config) (r : Request ManifestIn) (inputs : ℕ → Node.Input)
    (s : Node) :
    let run := (manifestHandler cfg r).run Node.effect inputs s
    (run.value ≠ .noContent → ∀ id, run.state.uploadTrace id = s.uploadTrace id) ↔
      ∀ id body, manifestRequest cfg r = .ok (id, body) →
        (upload cfg body inputs).Succeeds s.db id ∨
          (upload cfg body inputs).Repeats (s.uploadTrace id) := by
  unfold manifestHandler
  cases hreq : manifestRequest cfg r with
  | error reply => exact iff_of_true (fun _ _ => rfl) nofun
  | ok pair =>
      obtain ⟨id, body⟩ := pair
      dsimp only
      obtain ⟨hvalue, hleft⟩ := store_manifest_run cfg id body inputs s
      constructor
      · intro h id' body' heq
        obtain ⟨rfl, rfl⟩ : id = id' ∧ body = body' := by simpa using heq
        by_cases hsucceeds : (upload cfg body inputs).Succeeds s.db id
        · exact .inl hsucceeds
        · have hrejected := fun hcode => hsucceeds (hvalue.mp hcode)
          have htrace := hleft hrejected id
          rw [h hrejected id, if_pos rfl] at htrace
          exact .inr (Upload.left_eq_iff.mp htrace.symm)
      · intro h hrejected id'
        have hrepeats := (h id body rfl).resolve_left fun hs => hrejected (hvalue.mpr hs)
        rw [hleft hrejected id']
        split
        next hid =>
          subst hid
          exact Upload.left_eq_iff.mpr hrepeats
        next => rfl

/-- A manifest for a job that has no row, on an empty node where nothing fails: the request is
answered by 500, and the manifest and its mirror are stored everywhere. -/
theorem rejected_upload_stored :
    let run := (manifestHandler Sample.setup Sample.postManifest).run Node.effect Sample.allTake
      Node.empty
    run.value = .error 500 "db attach manifest failed: job not found" ∧
      Node.empty.uploadTrace "job" =
        ⟨.uniform none none, .uniform none none, none, [], false⟩ ∧
      run.state.uploadTrace "job" =
        ⟨.uniform (some (Sample.inputsOf.manifest 5)) none, .uniform (some "") none, none, [],
          false⟩ :=
  ⟨rfl, rfl, rfl⟩

/-- The same when the search for peers runs out of time: the put of the manifest fails, and the node
has stored it. -/
example :
    let late : Node.Input := { now := 1, dhtFault := true }
    let run := (manifestHandler Sample.setup Sample.postManifest).run Node.effect (fun _ => late)
      Node.empty
    run.value = .error 500 "store error: context deadline exceeded" ∧
      (run.state.uploadTrace "job").manifest.own = some (Sample.inputsOf.manifest 5) :=
  ⟨rfl, rfl⟩

end MutualCloud.Control
