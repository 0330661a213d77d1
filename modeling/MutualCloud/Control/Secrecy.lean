import MutualCloud.Control.Server
import MutualCloud.Library.Noninterference

/-!
# The secret of a manifest

`enc_meta` comes with the manifest that is posted for a job and is stored twice, in the row of the
job and in the manifest of the directory. `redacted` takes it out of everything it can be part of.
A statement or a step on a key that differs in the secret only is answered alike (`respected`), and
the programs of the control server are alike on requests that differ in the secret only: those that
never read a manifest because they see nothing of it, and the three that do (`manifestHandler`,
`announceOnce` and `getTaskHandler`) because they go on with the rest of the manifest.
-/

namespace MutualCloud

open Go KeyedTable Interaction

/-! ## The rows -/

namespace Store

/-- The manifest without the secret. -/
def Manifest.redacted (m : Manifest) : Manifest := { m with encMeta := "" }

/-- The row without the secret. -/
def Row.redacted (row : Row) : Row := { row with manifestEncMeta := none }

/-- The statements differ in the secret only. -/
inductive Stmt.Like : Stmt → Stmt → Prop where
  | refl (s : Stmt) : Like s s
  | attach (id : String) {m m' : Manifest} : m.redacted = m'.redacted →
      Like (.attachManifest id m) (.attachManifest id m')

section Like

variable {db db' : DemandJobs} {row row' : Row}

/-- Rows with one redaction differ in the secret only. -/
theorem Row.eq_of_redacted (h : row.redacted = row'.redacted) :
    row' = { row with manifestEncMeta := row'.manifestEncMeta } := by
  cases row
  cases row'
  cases h
  rfl

/-- A manifest is attached to both rows but for its secret. -/
theorem Row.attach_redacted {m m' : Manifest} (hm : m.redacted = m'.redacted)
    (h : row.redacted = row'.redacted) : (row.attach m).redacted = (row'.attach m').redacted := by
  cases m
  cases m'
  cases hm
  rw [Row.eq_of_redacted h]
  rfl

/-- Manifests that differ in the secret only are attached alike. -/
theorem Stmt.exec_attach {m m' : Manifest} (hm : m.redacted = m'.redacted) (id : String)
    (now : Time) (h : Agree Row.redacted db db') :
    ((attachManifest id m).exec now db).1 = ((attachManifest id m').exec now db').1 ∧
      Agree Row.redacted ((attachManifest id m).exec now db).2
        ((attachManifest id m').exec now db').2 := by
  refine h.update id (fun _ => Iff.rfl) ?_ fun _ => rfl
  intro row row' hrow
  exact congrArg Except.ok (Row.attach_redacted hm hrow)

/-- A statement sees nothing of the secret. -/
theorem Stmt.exec_same (s : Stmt) (now : Time) (h : Agree Row.redacted db db') :
    (s.exec now db).1 = (s.exec now db').1 ∧
      Agree Row.redacted (s.exec now db).2 (s.exec now db').2 := by
  cases s with
  | createJob job =>
      obtain ⟨hresult, hagree⟩ := h.insert_new job.id (Row.fresh job)
      exact ⟨congrArg Except.ok hresult, hagree⟩
  | getJob id =>
      exact ⟨congrArg Except.ok (h.lookup_map id fun _ => rfl), h⟩
  | attachManifest id m => exact exec_attach rfl id now h
  | tryClaim id agentID ttl =>
      refine h.update id (fun _ => Iff.rfl) ?_ fun _ => rfl
      intro row row' hrow
      rw [Row.eq_of_redacted hrow]
      unfold Row.claim
      split <;> rfl
  | claimRefusal id => exact ⟨congrArg Except.ok (h.lookup_map id fun _ => rfl), h⟩
  | heartbeat id agentID token ttl =>
      refine h.update id (fun _ => Iff.rfl) ?_ fun _ => rfl
      intro row row' hrow
      rw [Row.eq_of_redacted hrow]
      rfl
  | finish id agentID token outcome =>
      refine h.update id (fun _ => Iff.rfl) ?_ fun _ => rfl
      intro row row' hrow
      rw [Row.eq_of_redacted hrow]
      rfl
  | listExpiredLeases =>
      exact ⟨congrArg Except.ok (h.select (fun _ => rfl) fun _ => rfl), h⟩
  | setStatusQueued id =>
      refine h.update id (fun _ => Iff.rfl) ?_ fun _ => rfl
      intro row row' hrow
      rw [Row.eq_of_redacted hrow]
      unfold Row.requeue
      split <;> rfl

/-- Statements that differ in the secret only return the same. -/
theorem effect_like {s s' : Stmt} (h : s.Like s') (input : Input)
    (hdb : Agree Row.redacted db db') :
    HEq (effect s input db).1 (effect s' input db').1 ∧
      Agree Row.redacted (effect s input db).2 (effect s' input db').2 := by
  unfold effect
  cases input.fault with
  | some e =>
      cases h with
      | refl => exact ⟨.rfl, hdb⟩
      | attach => exact ⟨.rfl, hdb⟩
  | none =>
      cases h with
      | refl => exact (s.exec_same input.now hdb).imp_left heq_of_eq
      | attach id hm => exact (Stmt.exec_attach hm id input.now hdb).imp_left heq_of_eq

end Like

end Store

/-! ## The records of the directory -/

namespace Dht

variable {β : Type}

/-- What is left of a response when `part` is what is left of a value. -/
def Op.redact (part : β → β) : (op : Op β) → op.Response → op.Response
  | .getValue, r => Except.map part r
  | .loadLocal, r => Option.map part r
  | .putValue _, r => r
  | .storeLocal _, r => r
  | .timeNow, r => r

/-- The steps differ in a value with one part. -/
inductive Op.Like (part : β → β) : Op β → Op β → Prop where
  | refl (op : Op β) : Like part op op
  | putValue {v v' : β} : part v = part v' → Like part (.putValue v) (.putValue v')
  | storeLocal {v v' : β} : part v = part v' → Like part (.storeLocal v) (.storeLocal v')

/-- The registers have values with one part. -/
structure Register.Agree (part : β → β) (r r' : Register β) : Prop where
  net : r.net.map part = r'.net.map part
  loc : r.loc.map part = r'.loc.map part

variable {part : β → β} {r r' : Register β}

/-- Gets from registers that agree return values with one part. -/
theorem Register.Agree.get (h : r.Agree part r') (input : Input) :
    (r.get input).map part = (r'.get input).map part := by
  have hnet := h.net
  unfold Register.get
  cases input.fault with
  | some e => rfl
  | none =>
      cases hv : r.net with
      | none =>
          cases hv' : r'.net with
          | none => rfl
          | some v' => simp [hv, hv'] at hnet
      | some v =>
          cases hv' : r'.net with
          | none => simp [hv, hv'] at hnet
          | some v' =>
              rw [hv, hv'] at hnet
              exact congrArg Except.ok (Option.some.inj hnet)

/-- Puts of values with one part have one result, and leave registers that agree. -/
theorem Register.Agree.put (h : r.Agree part r') {v v' : β} (hv : part v = part v')
    (input : Input) :
    (effect (.putValue v) input r).1 = (effect (.putValue v') input r').1 ∧
      (effect (.putValue v) input r).2.Agree part (effect (.putValue v') input r').2 := by
  unfold effect
  cases hfault : input.fault with
  | some e => simpa [hfault] using h
  | none =>
      simp only [hfault, true_and]
      exact ⟨congrArg some hv, h.loc⟩

/-- Like steps on registers that agree are answered alike. -/
theorem effect_like {op op' : Op β} (hop : op.Like part op') (input : Input)
    (h : r.Agree part r') :
    HEq (op.redact part (effect op input r).1) (op'.redact part (effect op' input r').1) ∧
      (effect op input r).2.Agree part (effect op' input r').2 := by
  cases hop with
  | putValue hv => exact (h.put hv input).imp_left heq_of_eq
  | storeLocal hv => exact ⟨.rfl, h.net, congrArg some hv⟩
  | refl =>
      cases op with
      | getValue => exact ⟨heq_of_eq (h.get input), h⟩
      | putValue v => exact (h.put rfl input).imp_left heq_of_eq
      | loadLocal => exact ⟨heq_of_eq h.loc, h⟩
      | storeLocal v => exact ⟨.rfl, h.net, rfl⟩
      | timeNow => exact ⟨.rfl, h⟩

section Code

variable {ι : Type} {ρ : ι → Type} {L : Likeness ι ρ} {key : KeyAccess ι ρ β}

/-- `GetJSON` returns values with one part when its steps do. -/
theorem get_json_alike
    (hget : key.getValue.Alike L (fun r r' => r.map part = r'.map part) key.getValue)
    (hload : key.loadLocal.Alike L (fun v v' => v.map part = v'.map part) key.loadLocal) :
    (getJSON key).Alike L (fun r r' => r.map part = r'.map part) (getJSON key) := by
  refine hget.bind fun r r' hr => ?_
  cases r with
  | ok v =>
      cases r' with
      | ok v' => exact hr
      | error e' => cases hr
  | error e =>
      cases r' with
      | ok v' => cases hr
      | error e' =>
          refine hload.bind fun found found' hfound => ?_
          cases found with
          | none =>
              cases found' with
              | none => exact hr
              | some v' => cases hfound
          | some v =>
              cases found' with
              | none => cases hfound
              | some v' => exact congrArg Except.ok (Option.some.inj hfound)

/-- `PutJSON` returns the same when its steps do. -/
theorem put_json_alike {v v' : β} (hput : (key.putValue v).Alike L Eq (key.putValue v'))
    (hstore : (key.storeLocal v).Alike L Eq (key.storeLocal v')) :
    (putJSON key v).Alike L Eq (putJSON key v') := by
  refine hput.bind fun result _ hresult => ?_
  subst hresult
  cases result with
  | none => rfl
  | some e =>
      rw [keepLocal, keepLocal]
      split
      · exact hstore.bind fun _ _ _ => rfl
      · rfl

end Code

end Dht

namespace Control

open Store

/-- The manifest without the secret. -/
def TaskManifest.redacted (man : TaskManifest) : TaskManifest := { man with encMeta := "" }

/-- What is left of a record without the secret. -/
def DirKey.redact : (k : DirKey) → k.Value → k.Value
  | .manifest _, man => man.redacted
  | .taskMeta _, v => v
  | .index _, v => v
  | .indexShard _ _, v => v

/-! ## The site -/

namespace Site

/-- What is left of a response without the secret. -/
def Op.redact : (c : Op) → c.Response → c.Response
  | .key k op, r => op.redact k.redact r
  | .base _, r => r
  | .putJSON _ _, r => r
  | .intn _, r => r
  | .listQueued, r => r
  | .announced _ _, r => r

/-- The steps differ in the secret only. -/
inductive Op.Like : Op → Op → Prop where
  | refl (c : Op) : Like c c
  | sql {s s' : Stmt} : s.Like s' → Like (.base (.sql s)) (.base (.sql s'))
  | key (k : DirKey) {op op' : Dht.Op k.Value} : op.Like k.redact op' →
      Like (.key k op) (.key k op')

/-- The sites differ in the secret only. -/
structure Like (s s' : Site) : Prop where
  db : Agree Row.redacted s.world.db s'.world.db
  dht : s.world.dht = s'.world.dht
  dirty : s.world.dirty = s'.world.dirty
  trigger : s.world.trigger = s'.world.trigger
  keys : ∀ k, (s.keys k).Agree k.redact (s'.keys k)
  last : s.last = s'.last

/-- A site is like itself. -/
theorem Like.refl (s : Site) : s.Like s := ⟨rfl, rfl, rfl, rfl, fun _ => ⟨rfl, rfl⟩, rfl⟩

/-- Steps that differ in the secret only look the same, and so do responses. -/
def likeness : Likeness Op Op.Response where
  call := Op.Like
  response c c' r r' := HEq (c.redact r) (c'.redact r')

/-- The step returns nothing of the secret. -/
def Op.Open (c : Op) : Prop := ∀ r, c.redact r = r

/-- A step that returns nothing of the secret is visible. -/
theorem Op.Open.visible {c : Op} (h : c.Open) : likeness.Visible c := by
  refine ⟨.refl c, fun r r' hr => ?_⟩
  have hr' : HEq (c.redact r) (c.redact r') := hr
  rw [h r, h r'] at hr'
  exact eq_of_heq hr'

variable {s s' : Site}

/-- Statements on sites that differ in the secret only. -/
theorem Like.sql {stmt stmt' : Stmt} (h : s.Like s') (hstmt : stmt.Like stmt') (input : Input) :
    HEq (effect (.base (.sql stmt)) input s).1 (effect (.base (.sql stmt')) input s').1 ∧
      (effect (.base (.sql stmt)) input s).2.Like (effect (.base (.sql stmt')) input s').2 := by
  obtain ⟨hresponse, hdb⟩ := Store.effect_like hstmt input.toInput h.db
  exact ⟨hresponse, hdb, h.dht, h.dirty, h.trigger, h.keys, h.last⟩

/-- Steps on a key of sites that differ in the secret only. -/
theorem Like.key (h : s.Like s') (k : DirKey) {op op' : Dht.Op k.Value}
    (hop : op.Like k.redact op') (input : Input) :
    HEq (op.redact k.redact (effect (.key k op) input s).1)
        (op'.redact k.redact (effect (.key k op') input s').1) ∧
      (effect (.key k op) input s).2.Like (effect (.key k op') input s').2 := by
  obtain ⟨hresponse, hregister⟩ := Dht.effect_like hop input.onKey (h.keys k)
  refine ⟨hresponse, h.db, h.dht, h.dirty, h.trigger, fun k' => ?_, h.last⟩
  by_cases hk : k' = k
  · subst hk
    simpa [effect] using hregister
  · simpa [effect, Function.update_of_ne hk] using h.keys k'

/-- Puts to the mirror of sites that differ in the secret only. -/
theorem Like.put_dht (h : s.Like s') (k : DhtKey) (v : k.Value) :
    Like { s with world.dht := Function.update s.world.dht k (some v) }
      { s' with world.dht := Function.update s'.world.dht k (some v) } :=
  ⟨h.db, by rw [h.dht], h.dirty, h.trigger, h.keys, h.last⟩

/-- Steps that differ in the secret only are answered alike. -/
theorem respected : likeness.Respected Like effect := by
  intro c c' input s s' hc hs
  cases hc with
  | sql hstmt => exact hs.sql hstmt input
  | key k hop => exact hs.key k hop input
  | refl =>
      cases c with
      | key k op => exact hs.key k (.refl op) input
      | intn n => exact ⟨.rfl, hs⟩
      | announced id now =>
          exact ⟨.rfl, hs.db, hs.dht, hs.dirty, hs.trigger, hs.keys, by simp [effect, hs.last]⟩
      | putJSON k v =>
          simp only [likeness, effect]
          split
          · exact ⟨.rfl, hs⟩
          · exact ⟨.rfl, hs.put_dht k v⟩
      | listQueued =>
          have hjobs : queuedJobs s.world.db = queuedJobs s'.world.db :=
            congrArg (List.insertionSort _) (hs.db.select (fun _ => rfl) fun _ => rfl)
          simp only [likeness, effect]
          split
          · exact ⟨.rfl, hs⟩
          · exact ⟨heq_of_eq (congrArg Except.ok hjobs), hs⟩
      | base c =>
          cases c with
          | sql stmt => exact hs.sql (.refl stmt) input
          | getJSON k =>
              refine ⟨heq_of_eq ?_, hs⟩
              show (if input.dhtFault then none else s.world.dht k) =
                if input.dhtFault then none else s'.world.dht k
              rw [hs.dht]
          | putJSON k v =>
              refine ⟨.rfl, ?_⟩
              simp only [effect, Control.effect]
              split
              · exact hs
              · exact hs.put_dht k v
          | delJSON k =>
              refine ⟨.rfl, ?_⟩
              simp only [effect, Control.effect]
              split
              · exact hs
              · exact hs.put_dht k k.tombstone
          | timeNow => exact ⟨.rfl, hs⟩
          | enqueue id =>
              refine ⟨.rfl, hs.db, hs.dht, ?_, rfl, hs.keys, hs.last⟩
              show s.world.dirty.insert id = s'.world.dirty.insert id
              rw [hs.dirty]

/-! ## Code on the site -/

variable {α : Type}

/-- Code whose steps return nothing of the secret is like itself. -/
theorem alike_of_open {p : SiteCode α} (h : p.Always (fun _ _ => True) Op.Open) :
    p.Alike likeness Eq p :=
  Prog.alike_self (h.mono fun _ hc => hc.visible)

/-- Code on the world sees no manifest. -/
theorem lift_open (p : Code α) : (lift p).Always (fun _ _ => True) Op.Open :=
  Prog.always_embed (fun _ _ => rfl) p

/-- Steps on the key of a record without a secret. -/
theorem key_open {k : DirKey} (h : ∀ v, k.redact v = v) (op : Dht.Op k.Value) :
    Op.Open (.key k op) := by
  intro r
  have hredact : k.redact = id := funext h
  show op.redact k.redact r = r
  rw [hredact]
  cases op with
  | getValue => cases r <;> rfl
  | loadLocal => exact Option.map_id_apply
  | putValue | storeLocal | timeNow => rfl

/-- `PutJSON` returns nothing of a record. -/
theorem put_json_open (k : DirKey) (v : k.Value) :
    (putJSON k v).Always (fun _ _ => True) Op.Open :=
  put_json_always_of (fun _ => rfl) fun _ => rfl

/-- A put to the mirror returns nothing of a record. -/
theorem put_mirror_open (k : DhtKey) (v : k.Value) :
    (putMirror k v).Always (fun _ _ => True) Op.Open :=
  ⟨fun _ => rfl, fun _ _ => trivial⟩

/-- `GetJSON` returns records that differ in the secret only. -/
theorem get_json_alike (k : DirKey) :
    (getJSON k).Alike likeness (fun r r' => r.map k.redact = r'.map k.redact) (getJSON k) := by
  refine Dht.get_json_alike ⟨.refl _, fun r r' hr => ?_⟩ ⟨.refl _, fun found found' hfound => ?_⟩
  · exact eq_of_heq hr
  · exact eq_of_heq hfound

/-- `PutJSON` of records that differ in the secret only. -/
theorem put_json_alike (k : DirKey) {v v' : k.Value} (hv : k.redact v = k.redact v') :
    (putJSON k v).Alike likeness Eq (putJSON k v') := by
  refine Dht.put_json_alike ⟨.key k (.putValue hv), fun r r' hr => ?_⟩
    ⟨.key k (.storeLocal hv), fun _ _ _ => rfl⟩
  exact eq_of_heq hr

end Site

open Site (likeness)

/-! ### Code without manifests -/

/-- What is published for a task is no manifest. -/
theorem publish_open (ns id image : String) (command : Strings) :
    PublishSteps Site.Op.Open ns id image command where
  time := fun _ => rfl
  enqueue := fun _ => rfl
  intn := fun _ => rfl
  put := fun _ _ => rfl
  keep := fun _ _ => rfl
  state := fun _ _ => rfl
  shard := fun _ op => Site.key_open (fun _ => rfl) op

/-- `createTaskHandler` reads no manifest. -/
theorem create_task_open (env : Env) (ns : String) (r : Request CreateTaskReq) :
    (createTaskHandler env ns r).Always (fun _ _ => True) Site.Op.Open :=
  PublishSteps.create_task_handler fun _ _ => ⟨publish_open ns _ _ _, fun _ _ => rfl⟩

/-- The flag `--create` reads no manifest. -/
theorem create_from_flags_open (ns createStr image cmdStr : String) :
    (createFromFlags ns createStr image cmdStr).Always (fun _ _ => True) Site.Op.Open := by
  have heach : ∀ cmd ids,
      (createEach ns image cmd ids).Always (fun _ _ => True) Site.Op.Open := by
    intro cmd ids
    induction ids with
    | nil => trivial
    | cons id rest ih =>
        refine Prog.always_bind ?_ fun result => Prog.always_bind ih fun _ => trivial
        exact (publish_open ns id image cmd).create_from_flag (Site.key_open fun _ => rfl)
          fun _ _ => rfl
  unfold createFromFlags
  split
  · exact heach _ _
  · trivial

/-- `restoreJobsFromDemand` reads no manifest. -/
theorem restore_open (ns : String) :
    (restoreJobsFromDemand ns).Always (fun _ _ => True) Site.Op.Open := by
  refine ⟨fun _ => rfl, fun result _ => ?_⟩
  cases result with
  | error e => trivial
  | ok jobs => exact Prog.always_forM fun j _ => (publish_open ns _ _ _).restore_job

/-- `reannounceQueuedLoop` reads no manifest. -/
theorem reannounce_open : reannounceTick.Always (fun _ _ => True) Site.Op.Open := by
  refine ⟨fun _ => rfl, fun result _ => ?_⟩
  cases result with
  | error e => trivial
  | ok jobs => exact Prog.always_forM fun j _ => Site.lift_open _

/-- `forceRequeueHandler` reads no manifest. -/
theorem force_requeue_open (env : Env) (r : Request Unit) :
    (forceRequeueHandler env r).Always (fun _ _ => True) Site.Op.Open := by
  have hjob : ∀ id, (forceRequeueJob id).Always (fun _ _ => True) Site.Op.Open := by
    intro id
    refine Prog.always_bind (Site.lift_open _) fun now => ?_
    refine Prog.always_bind (Site.lift_open _) fun st => ?_
    split
    · trivial
    · refine Prog.always_bind (Site.lift_open _) fun _ => ?_
      refine Prog.always_bind (Site.put_mirror_open _ _) fun result => ?_
      cases result with
      | some e => trivial
      | none => exact Prog.always_bind (Site.lift_open _) fun _ => trivial
  unfold forceRequeueHandler
  split
  · trivial
  · split
    · trivial
    · exact hjob _

/-! ### Code with manifests -/

/-- The request without the secret. -/
def ManifestIn.redacted (body : ManifestIn) : ManifestIn := { body with encMeta := "" }

/-- The checks of `manifestHandler` do not look at the secret. -/
theorem manifest_request_redacted (cfg : Config) (r : Request ManifestIn) :
    manifestRequest cfg { r with body := r.body.map ManifestIn.redacted } =
      (manifestRequest cfg r).map fun found => (found.1, found.2.redacted) := by
  have hauth : requireAuth cfg.env { r with body := r.body.map ManifestIn.redacted } =
      requireAuth cfg.env r := rfl
  have hparts : Request.parts { r with body := r.body.map ManifestIn.redacted } = r.parts := rfl
  unfold manifestRequest
  rw [hauth, hparts]
  generalize r.parts = parts
  split
  · rfl
  · split
    · cases r.body with
      | error e => rfl
      | ok body =>
          have hroot : body.redacted.rootCID = body.rootCID := rfl
          have htransports : body.redacted.transports = body.transports := rfl
          have hproviders : validateProviders cfg body.redacted = validateProviders cfg body := rfl
          simp only [Except.map, hroot, htransports, hproviders]
          split
          · rfl
          · cases validateTransports body.transports with
            | some e => rfl
            | none => cases validateProviders cfg body <;> rfl
    · rfl

/-- Requests with one redaction differ in the secret only. -/
theorem ManifestIn.eq_of_redacted {body body' : ManifestIn} (h : body.redacted = body'.redacted) :
    ∃ encMeta, body' = { body with encMeta := encMeta } := by
  cases body
  cases body'
  cases h
  exact ⟨_, rfl⟩

/-- `AttachManifest` returns nothing of the secret. -/
theorem pg_attach_alike (id : String) {m m' : Manifest} (h : m.redacted = m'.redacted) :
    (Site.lift (store (PGStore.attachManifest id m))).Alike likeness Eq
      (Site.lift (store (PGStore.attachManifest id m'))) := by
  refine ⟨.sql (.attach id h), fun rows rows' hrows => ?_⟩
  exact congrArg (PGStore.requireRow .jobNotFound) (eq_of_heq hrows)

/-- Manifests with different secrets are attached to the row alike. -/
theorem attach_manifest_alike (cfg : Config) (id : String) (body : ManifestIn) (encMeta : String) :
    (attachManifest cfg id body).Alike likeness Eq
      (attachManifest cfg id { body with encMeta := encMeta }) := by
  refine (Site.alike_of_open (Site.lift_open _)).bind fun now _ hnow => ?_
  subst hnow
  refine (Site.alike_of_open (Site.put_mirror_open _ _)).bind fun result _ hresult => ?_
  subst hresult
  cases result with
  | some e => rfl
  | none =>
      refine Prog.Alike.bind (pg_attach_alike id ?_) fun result _ hresult => ?_
      · rfl
      subst hresult
      cases result with
      | error e => rfl
      | ok _ => exact (Site.alike_of_open (Site.lift_open _)).bind_self fun _ => rfl

/-- Manifests that are posted with different secrets are stored alike. -/
theorem store_manifest_alike (cfg : Config) (id : String) {body body' : ManifestIn}
    (h : body.redacted = body'.redacted) :
    (storeManifest cfg id body).Alike likeness Eq (storeManifest cfg id body') := by
  obtain ⟨encMeta, rfl⟩ := ManifestIn.eq_of_redacted h
  have htime : (manifestTime body).Alike likeness Eq (manifestTime body) := by
    unfold manifestTime
    split
    · exact Site.alike_of_open (Site.lift_open _)
    · rfl
  refine htime.bind fun updatedAt _ hsame => ?_
  subst hsame
  have hput : (Site.putJSON (.manifest id) (body.manifest updatedAt)).Alike likeness Eq
      (Site.putJSON (.manifest id)
        (ManifestIn.manifest { body with encMeta := encMeta } updatedAt)) :=
    Site.put_json_alike _ rfl
  refine hput.bind fun result _ hresult => ?_
  subst hresult
  cases result with
  | some e => rfl
  | none => exact attach_manifest_alike cfg id body encMeta

/-- `manifestHandler` answers requests that differ in the secret only alike. -/
theorem manifest_handler_alike (cfg : Config) {r r' : Request ManifestIn}
    (h : { r with body := r.body.map ManifestIn.redacted } =
      { r' with body := r'.body.map ManifestIn.redacted }) :
    (manifestHandler cfg r).Alike likeness Eq (manifestHandler cfg r') := by
  have hrequest := congrArg (manifestRequest cfg) h
  rw [manifest_request_redacted, manifest_request_redacted] at hrequest
  unfold manifestHandler
  cases hr : manifestRequest cfg r with
  | error reply =>
      cases hr' : manifestRequest cfg r' with
      | error reply' =>
          rw [hr, hr'] at hrequest
          exact Except.error.inj hrequest
      | ok found' => simp [hr, hr', Except.map] at hrequest
  | ok found =>
      cases hr' : manifestRequest cfg r' with
      | error reply' => simp [hr, hr', Except.map] at hrequest
      | ok found' =>
          rw [hr, hr'] at hrequest
          obtain ⟨hid, hbody⟩ := Prod.mk.inj (Except.ok.inj hrequest)
          show Prog.Alike likeness Eq (storeManifest cfg found.1 found.2)
            (storeManifest cfg found'.1 found'.2)
          rw [hid]
          exact store_manifest_alike cfg found'.1 hbody

/-- `announceOnce` advertises nothing of the secret. -/
theorem announce_once_alike (cfg : Config) (id : String) :
    (announceOnce cfg id).Alike likeness Eq (announceOnce cfg id) := by
  have hplaceholder : (putPlaceholder id).Alike likeness
      (fun man man' => man.redacted = man'.redacted) (putPlaceholder id) := by
    refine (Site.alike_of_open ?_).mono fun _ _ hman => congrArg TaskManifest.redacted hman
    refine Prog.always_bind (Site.lift_open _) fun now => ?_
    exact Prog.always_bind (Site.put_json_open _ _) fun _ => trivial
  refine (Site.get_json_alike (.manifest id)).bind fun result result' hresult => ?_
  refine Prog.Alike.bind (V := fun man man' => TaskManifest.redacted man = man'.redacted) ?_ ?_
  · cases result with
    | error e =>
        cases result' with
        | error e' => exact hplaceholder
        | ok man' => cases hresult
    | ok man =>
        cases result' with
        | error e' => cases hresult
        | ok man' =>
            have hman : man.redacted = man'.redacted := Except.ok.inj hresult
            have hroot : man.redacted.rootCID = man'.redacted.rootCID := by rw [hman]
            show Prog.Alike likeness _ (if man.rootCID = "" then putPlaceholder id else pure man)
              (if man'.rootCID = "" then putPlaceholder id else pure man')
            rw [show man.rootCID = man'.rootCID from hroot]
            split
            · exact hplaceholder
            · exact hman
  · intro man man' hman
    have hredacted : ∀ man, advertise cfg id man = advertise cfg id man.redacted := fun _ => rfl
    rw [hredacted man, hman, ← hredacted man']
    refine Site.alike_of_open ?_
    refine Prog.always_bind ?_ fun _ => ?_
    · refine Prog.always_bind (Site.lift_open _) fun now => ?_
      exact Prog.always_bind (Site.lift_open _) fun _ => Site.lift_open _
    · refine Prog.always_bind (Site.lift_open _) fun now => ?_
      exact ⟨fun _ => rfl, fun _ _ => trivial⟩

/-- `getTaskHandler` reports nothing of the secret. -/
theorem get_task_alike (env : Env) (r : Request Unit) :
    (getTaskHandler env r).Alike likeness Eq (getTaskHandler env r) := by
  have hout : ∀ man, manifestOut (Except.map TaskManifest.redacted man) = manifestOut man := by
    intro man
    cases man <;> rfl
  have hreport : ∀ id job, (reportTask id job).Alike likeness Eq (reportTask id job) := by
    intro id job
    refine (Site.get_json_alike (.manifest id)).bind fun man man' hman => ?_
    have hsame : manifestOut man = manifestOut man' :=
      (hout man).symm.trans ((congrArg manifestOut hman).trans (hout man'))
    show Answer.task _ = Answer.task _
    rw [hsame]
  have hjob : ∀ id, (getTask id).Alike likeness Eq (getTask id) := by
    intro id
    refine (Site.alike_of_open (Site.lift_open _)).bind_self fun result => ?_
    cases result with
    | error e => rfl
    | ok job => exact hreport id job
  unfold getTaskHandler
  split
  · rfl
  · split
    · rfl
    · dsimp only
      split
      · rfl
      · exact hjob _

/-! ## The server -/

namespace Server

/-- What is left of a response without the secret. -/
def Op.redact : (c : Op) → c.Response → c.Response
  | .site op, r => op.redact r
  | .listPaged _ _, r => r
  | .countByStatus, r => r
  | .ws _ _, r => r
  | .wsToken _ _, r => r
  | .receive, r => r
  | .process _, r => r

/-- The steps differ in the secret only. -/
inductive Op.Like : Op → Op → Prop where
  | refl (c : Op) : Like c c
  | site {c c' : Site.Op} : c.Like c' → Like (.site c) (.site c')

/-- The servers differ in the secret only. -/
structure Like (s s' : Server) : Prop where
  site : s.site.Like s'.site
  ws : s.ws = s'.ws
  wsToken : s.wsToken = s'.wsToken

/-- A server is like itself. -/
theorem Like.refl (s : Server) : s.Like s := ⟨.refl s.site, rfl, rfl⟩

/-- Steps that differ in the secret only look the same, and so do responses. -/
def likeness : Likeness Op Op.Response where
  call := Op.Like
  response c c' r r' := HEq (c.redact r) (c'.redact r')

/-- Steps that differ in the secret only are answered alike. -/
theorem respected : likeness.Respected Like effect := by
  have hsite : ∀ {c c' : Site.Op} (input : Input) {s s' : Server}, c.Like c' → s.Like s' →
      HEq (c.redact (effect (.site c) input s).1) (c'.redact (effect (.site c') input s').1) ∧
        (effect (.site c) input s).2.Like (effect (.site c') input s').2 := by
    intro c c' input s s' hc hs
    obtain ⟨hresponse, hstate⟩ := Site.respected c c' input.onSite _ _ hc hs.site
    exact ⟨hresponse, hstate, hs.ws, hs.wsToken⟩
  intro c c' input s s' hc hs
  cases hc with
  | site hc => exact hsite input hc hs
  | refl =>
      cases c with
      | site c => exact hsite input (.refl c) hs
      | listPaged limit offset =>
          have hjobs : pagedJobs limit offset s.site.world.db =
              pagedJobs limit offset s'.site.world.db := by
            unfold pagedJobs
            rw [hs.site.db.columns fun _ => rfl]
          exact ⟨heq_of_eq (congrArg (query input) hjobs), hs⟩
      | countByStatus =>
          have hcount : statusCount s.site.world.db = statusCount s'.site.world.db := by
            funext status
            have hids : (s.site.world.db.entries.filter
                  fun entry => entry.2.status = status).map Sigma.fst =
                (s'.site.world.db.entries.filter
                  fun entry => entry.2.status = status).map Sigma.fst :=
              hs.site.db.select (fun _ => rfl) fun _ => rfl
            simpa [statusCount] using congrArg List.length hids
          exact ⟨heq_of_eq (congrArg (query input) hcount), hs⟩
      | ws id op =>
          refine ⟨heq_of_eq ?_, hs.site, ?_, hs.wsToken⟩
          · show (Dht.effect op input.onKey (s.ws id)).1 = (Dht.effect op input.onKey (s'.ws id)).1
            rw [hs.ws]
          · show Function.update s.ws id _ = Function.update s'.ws id _
            rw [hs.ws]
      | wsToken id op =>
          refine ⟨heq_of_eq ?_, hs.site, hs.ws, ?_⟩
          · show (Dht.effect op input.onKey (s.wsToken id)).1 =
              (Dht.effect op input.onKey (s'.wsToken id)).1
            rw [hs.wsToken]
          · show Function.update s.wsToken id _ = Function.update s'.wsToken id _
            rw [hs.wsToken]
      | receive =>
          obtain ⟨hdb, hdht, hdirty, _, hkeys, hlast⟩ := hs.site
          exact ⟨.rfl, ⟨hdb, hdht, hdirty, rfl, hkeys, hlast⟩, hs.ws, hs.wsToken⟩
      | process interval =>
          have hdue : s.site.due interval input.now = s'.site.due interval input.now := by
            unfold Site.due
            rw [hs.site.dirty, hs.site.last]
          exact ⟨heq_of_eq (congrArg input.order.arrange hdue), hs⟩

variable {α : Type}

/-- Code on the site that is alike there is alike on the server. -/
theorem lift_alike {p q : SiteCode α} (h : p.Alike Site.likeness Eq q) :
    (lift p).Alike likeness Eq (lift q) := by
  refine Prog.Alike.embed ?_ ?_ h
  · intro c c' hc
    exact Op.Like.site hc
  · intro c c' r r' hr
    exact hr

/-- Code on the site that reads no manifest is like itself on the server. -/
theorem lift_alike_of_open {p : SiteCode α} (h : p.Always (fun _ _ => True) Site.Op.Open) :
    (lift p).Alike likeness Eq (lift p) :=
  lift_alike (Site.alike_of_open h)

/-- A step of which the observer sees all is like itself. -/
theorem perform_alike {c : Op} (h : ∀ r, c.redact r = r) :
    (Prog.perform c : ServerCode c.Response).Alike likeness Eq (Prog.perform c) := by
  refine ⟨.refl c, fun r r' hr => ?_⟩
  have hr' : HEq (c.redact r) (c.redact r') := hr
  rw [h r, h r'] at hr'
  exact eq_of_heq hr'

/-- Replies of alike handlers are the same. -/
theorem reply_alike {p q : SiteCode Reply} (h : p.Alike Site.likeness Eq q) :
    (reply p).Alike likeness Eq (reply q) :=
  (lift_alike h).bind fun _ _ hr => congrArg Answer.reply hr

end Server

/-- The body without the secret. -/
def Body.redacted (body : Body) : Body :=
  { body with manifest := body.manifest.map ManifestIn.redacted }

/-- The request without the secret. -/
def Incoming.redacted (r : Incoming) : Incoming := { r with body := r.body.redacted }

/-- `listTasksHandler` is like itself. -/
theorem list_tasks_alike (env : Env) (query : String → String) (r : Request Unit) :
    (listTasksHandler env query r).Alike Server.likeness Eq (listTasksHandler env query r) := by
  unfold listTasksHandler
  split
  · rfl
  · split
    · rfl
    · refine (Server.perform_alike fun _ => rfl).bind_self fun result => ?_
      cases result <;> rfl

/-- `statsHandler` is like itself. -/
theorem stats_alike (env : Env) (r : Request Unit) :
    (statsHandler env r).Alike Server.likeness Eq (statsHandler env r) := by
  unfold statsHandler
  split
  · rfl
  · refine (Server.perform_alike fun _ => rfl).bind_self fun result => ?_
    cases result <;> rfl

/-- `logsHandler` is like itself. -/
theorem logs_alike (env : Env) (r : Request Unit) :
    (logsHandler env r).Alike Server.likeness Eq (logsHandler env r) := by
  have hput : ∀ id v, (Dht.putJSON (Server.wsTokenAccess id) v).Alike Server.likeness Eq
      (Dht.putJSON (Server.wsTokenAccess id) v) := fun id v =>
    Dht.put_json_alike (Server.perform_alike fun _ => rfl) (Server.perform_alike fun _ => rfl)
  have hget : ∀ id, (Dht.getJSON (Server.wsAccess id)).Alike Server.likeness Eq
      (Dht.getJSON (Server.wsAccess id)) := by
    intro id
    -- the whole endpoint is seen
    have hwhole : ∀ r : Except String Metrics, Except.map (fun v => v) r = r := by
      intro r
      cases r <;> rfl
    refine (Dht.get_json_alike ?_ ?_).mono fun r r' hr =>
      (hwhole r).symm.trans (hr.trans (hwhole r'))
    · exact (Server.perform_alike fun _ => rfl).mono fun _ _ hr => congrArg (Except.map _) hr
    · exact (Server.perform_alike fun _ => rfl).mono fun _ _ hv => congrArg (Option.map _) hv
  unfold logsHandler
  split
  · rfl
  · refine (hget _).bind_self fun result => ?_
    cases result with
    | error e => rfl
    | ok endpoint =>
        refine (Server.lift_alike_of_open (Site.lift_open _)).bind_self fun now => ?_
        refine (Server.lift_alike_of_open (Site.lift_open _)).bind_self fun issued => ?_
        exact (hput _ _).bind_self fun _ => rfl

/-- Requests with one redaction differ in what the decoder makes of a manifest. -/
theorem Incoming.eq_of_redacted {r r' : Incoming} (h : r.redacted = r'.redacted) :
    ∃ manifest, r.body.manifest.map ManifestIn.redacted = manifest.map ManifestIn.redacted ∧
      r' = { r with body := { r.body with manifest := manifest } } := by
  obtain ⟨method, path, header, query, body⟩ := r
  obtain ⟨method', path', header', query', body'⟩ := r'
  obtain ⟨finish, tryClaim, heartbeat, release, create, manifest⟩ := body
  obtain ⟨finish', tryClaim', heartbeat', release', create', manifest'⟩ := body'
  simp only [Incoming.redacted, Body.redacted, Incoming.mk.injEq, Body.mk.injEq] at h
  obtain ⟨rfl, rfl, rfl, rfl, rfl, rfl, rfl, rfl, rfl, hmanifest⟩ := h
  exact ⟨manifest', hmanifest, rfl⟩

/-- Every handler answers requests that differ in the secret only alike. -/
theorem handler_alike (cfg : Config) {r r' : Incoming} (h : r.redacted = r'.redacted)
    (handler : Handler) :
    (handler.code cfg r).Alike Server.likeness Eq (handler.code cfg r') := by
  obtain ⟨manifest, hmanifest, rfl⟩ := Incoming.eq_of_redacted h
  cases handler with
  | health => rfl
  | listTasks => exact list_tasks_alike cfg.env r.query r.bodiless
  | createTask =>
      refine Prog.Alike.bind_self (Server.lift_alike_of_open ?_) fun _ => rfl
      exact create_task_open cfg.env cfg.ns _
  | tryClaim => exact Server.reply_alike (Site.alike_of_open (Site.lift_open _))
  | heartbeat => exact Server.reply_alike (Site.alike_of_open (Site.lift_open _))
  | release => exact Server.reply_alike (Site.alike_of_open (Site.lift_open _))
  | logs => exact logs_alike cfg.env r.bodiless
  | getTask => exact Server.lift_alike (get_task_alike cfg.env r.bodiless)
  | stats => exact stats_alike cfg.env r.bodiless
  | manifest =>
      refine Server.reply_alike (manifest_handler_alike cfg ?_)
      exact congrArg (Request.mk r.method r.path r.header) hmanifest
  | finish => exact Server.reply_alike (Site.alike_of_open (Site.lift_open _))
  | debugLease => exact Server.lift_alike_of_open (Site.lift_open _)
  | forceRequeue =>
      exact Server.reply_alike (Site.alike_of_open (force_requeue_open cfg.env r.bodiless))

/-- Requests that differ in the secret only are served alike. -/
theorem serve_alike (cfg : Config) {r r' : Incoming} (h : r.redacted = r'.redacted) :
    (serve cfg r).Alike Server.likeness Eq (serve cfg r') := by
  have hmount : mountHTTP r.redacted.method r.redacted.path =
      mountHTTP r'.redacted.method r'.redacted.path := by rw [h]
  unfold serve
  rw [show mountHTTP r.method r.path = mountHTTP r'.method r'.path from hmount]
  cases mountHTTP r'.method r'.path with
  | redirect path => rfl
  | error status message => rfl
  | handler handler => exact handler_alike cfg h handler

/-- A pass of `Run` shows nothing of the secret. -/
theorem run_pass_alike (cfg : Config) (interval : Duration) (woken : Bool) :
    (runPass cfg interval woken).Alike Server.likeness Eq (runPass cfg interval woken) := by
  have hprocess : (process cfg interval).Alike Server.likeness Eq (process cfg interval) := by
    refine (Server.perform_alike fun _ => rfl).bind_self fun ids => ?_
    exact Prog.alike_forM (fun id => Server.lift_alike (announce_once_alike cfg id)) ids
  unfold runPass
  split
  · exact (Server.perform_alike fun _ => rfl).bind_self fun _ => hprocess
  · exact hprocess

/-- The work without the secret. -/
def Work.redacted : Work → Work
  | request r => request r.redacted
  | w => w

/-- Work that differs in the secret only is alike. -/
theorem work_alike (cfg : Config) (interval : Duration) {w w' : Work}
    (h : w.redacted = w'.redacted) :
    (w.code cfg interval).Alike Server.likeness Eq (w'.code cfg interval) := by
  -- work other than requests is the same
  have hsilent : ∀ {α : Type} {p : ServerCode α}, p.Alike Server.likeness Eq p →
      (Server.silent p).Alike Server.likeness Eq (Server.silent p) :=
    fun hp => hp.bind_self fun _ => rfl
  cases w with
  | request r =>
      cases w' with
      | request r' =>
          have hr : r.redacted = r'.redacted := Work.request.inj h
          exact (serve_alike cfg hr).bind fun _ _ hanswer => congrArg some hanswer
      | announce | requeue | reannounce | restore | create => cases h
  | announce woken =>
      cases w' with
      | announce woken' =>
          cases h
          exact hsilent (run_pass_alike cfg interval woken)
      | request | requeue | reannounce | restore | create => cases h
  | requeue =>
      cases w' with
      | requeue => exact hsilent (Server.lift_alike_of_open (Site.lift_open _))
      | request | announce | reannounce | restore | create => cases h
  | reannounce =>
      cases w' with
      | reannounce => exact hsilent (Server.lift_alike_of_open reannounce_open)
      | request | announce | requeue | restore | create => cases h
  | restore =>
      cases w' with
      | restore => exact hsilent (Server.lift_alike_of_open (restore_open cfg.ns))
      | request | announce | requeue | reannounce | create => cases h
  | create createStr image cmdStr =>
      cases w' with
      | create createStr' image' cmdStr' =>
          cases h
          exact hsilent (Server.lift_alike_of_open (create_from_flags_open _ _ _ _))
      | request | announce | requeue | reannounce | restore => cases h

/-! ## What can be seen of a run -/

/-- The record that a step puts to the mirror: a task advertisement, a manifest mirror, a state or
a lease. -/
def Server.Op.record : Server.Op → Option (Σ k : DhtKey, k.Value)
  | .site (.base (.putJSON k v)) => some ⟨k, v⟩
  | .site (.base (.delJSON k)) => some ⟨k, k.tombstone⟩
  | .site (.putJSON k v) => some ⟨k, v⟩
  | _ => none

/-- The record that a step writes, when the DHT answers it. -/
def Server.Event.written (e : Server.Event) : Option (Σ k : DhtKey, k.Value) :=
  if e.input.dhtFault then none else e.call.record

/-- Steps that differ in the secret only put the same record. -/
theorem record_like {c c' : Server.Op} (h : c.Like c') : c.record = c'.record := by
  cases h with
  | refl => rfl
  | site hc =>
      cases hc with
      | refl => rfl
      | sql => rfl
      | key => rfl

section Runs

variable {τ : Type}

/-- The records that a run writes, each with the work that writes it. -/
def written (history : List (τ × Server.Event)) : List (τ × Σ k : DhtKey, k.Value) :=
  history.filterMap fun l => l.2.written.map (Prod.mk l.1)

/-- Histories of steps that differ in the secret only write the same records. -/
theorem written_like {history history' : List (τ × Server.Event)}
    (h : List.Forall₂ (fun l l' => l.1 = l'.1 ∧ Server.likeness.Events l.2 l'.2) history history') :
    written history = written history' := by
  induction h with
  | nil => rfl
  | @cons l l' rest rest' hl _ ih =>
      obtain ⟨hthread, hinput, hcall, _⟩ := hl
      have hwritten : l.2.written = l'.2.written := by
        unfold Server.Event.written
        rw [hinput, record_like hcall]
      unfold written at ih ⊢
      rw [List.filterMap_cons, List.filterMap_cons, hthread, hwritten, ih]

variable [DecidableEq τ]

/-- Two runs on one schedule, with requests that differ in `enc_meta` only: every request has the
same answer, if any, the records that are written to the mirror are the same, and so is the
mirror. -/
theorem enc_meta_hidden (cfg : Config) (interval : Duration) {work work' : τ → Work}
    {s s' : Server} (hwork : ∀ i, (work i).redacted = (work' i).redacted) (hstart : s.Like s')
    (plan : List (τ × Server.Input)) :
    (∀ i answer,
      (Server.after cfg interval work plan s).2.thread i = .done (some answer) ↔
        (Server.after cfg interval work' plan s').2.thread i = .done (some answer)) ∧
    written (Server.after cfg interval work plan s).1 =
      written (Server.after cfg interval work' plan s').1 ∧
    (Server.after cfg interval work plan s).2.shared.site.world.dht =
      (Server.after cfg interval work' plan s').2.shared.site.world.dht := by
  have hpools : (server cfg interval work s).Alike Server.likeness Server.Like
      (server cfg interval work' s') :=
    ⟨hstart, fun i => work_alike cfg interval (hwork i)⟩
  obtain ⟨hevents, hpool⟩ := Pool.schedule_alike Server.respected plan hpools
  refine ⟨fun i answer => ?_, written_like hevents, hpool.shared.site.dht⟩
  exact (hpool.thread i).done_iff (some answer)

end Runs

namespace Sample

/-- The manifest of the job is posted with this secret. -/
def postSecret (encMeta : String) : Incoming where
  method := "POST"
  path := "/jobs/job/manifest"
  header _ := ""
  query _ := ""
  body := {
    finish := .error "EOF"
    tryClaim := .error "EOF"
    heartbeat := .error "EOF"
    release := .error "EOF"
    create := .error "EOF"
    manifest := .ok { inputsOf with encMeta := encMeta } }

/-- Somebody asks for the task. -/
def askTask : Incoming := { postSecret "" with method := "GET", path := "/api/tasks/job" }

/-- The manifest is posted, announced and asked for. -/
def secretWork (encMeta : String) : Option Bool → Work
  | none => .request (postSecret encMeta)
  | some false => .announce true
  | some true => .request askTask

/-- A step in which nothing fails. -/
def calm : Server.Input := { onSite := still 0 }

/-- One after another. -/
def inTurn : List (Option Bool × Server.Input) :=
  List.replicate 5 (none, calm) ++ List.replicate 8 (some false, calm) ++
    List.replicate 2 (some true, calm)

/-- The control server with the sample job. -/
def idle : Server := ⟨postedSite, fun _ => ⟨none, none⟩, fun _ => ⟨none, none⟩⟩

/-- The run with this secret. -/
def secretRun (encMeta : String) : List (Option Bool × Server.Event) ×
    Pool (Option Bool) Server.Op Server.Op.Response Server (Option Answer) :=
  Server.after setup (3 * second) (secretWork encMeta) inTurn idle

end Sample

/-- Two secrets are posted and stored, and nobody sees which. -/
theorem enc_meta_hidden_posted :
    ((Sample.secretRun "a").2.shared.site.found (.manifest "job")).map TaskManifest.encMeta =
      some "a" ∧
    ((Sample.secretRun "b").2.shared.site.found (.manifest "job")).map TaskManifest.encMeta =
      some "b" ∧
    (written (Sample.secretRun "a").1).length = 3 ∧
    (∀ i answer, (Sample.secretRun "a").2.thread i = .done (some answer) ↔
      (Sample.secretRun "b").2.thread i = .done (some answer)) ∧
    written (Sample.secretRun "a").1 = written (Sample.secretRun "b").1 ∧
    (Sample.secretRun "a").2.shared.site.world.dht =
      (Sample.secretRun "b").2.shared.site.world.dht := by
  have hwork : ∀ i, (Sample.secretWork "a" i).redacted = (Sample.secretWork "b" i).redacted := by
    intro i
    cases i with
    | none => rfl
    | some b => cases b <;> rfl
  have hhidden := enc_meta_hidden Sample.setup (3 * second) hwork (.refl Sample.idle) Sample.inTurn
  refine ⟨by decide +kernel, by decide +kernel, by decide +kernel, ?_⟩
  unfold Sample.secretRun
  exact hhidden

end Control

end MutualCloud
