import MutualCloud.Control.Creation

/-!
# Manifests and announcements

`manifestHandler` stores the manifest that is posted for a job, and `announceOnce`, which the
announce manager runs again and again for every job it knows, stores a placeholder when it finds
no manifest. It reads and writes in separate steps, and takes a read that fails for a missing
manifest. So the placeholder can replace a manifest: when the manifest is posted between the two
steps, or when the read fails. `manifest_kept` excludes both, and then the manifest that was put
last stays stored.
-/

namespace MutualCloud.Control

open Go KeyedTable Interaction Labelled Store

/-! ## Announcements -/

/-- `taskAd`, without the signature that nothing sets. -/
structure TaskAd where
  jobID : String
  ns : String
  topic : String
  demandURL : String
  exp : Time

/-- What the announce manager and `manifestHandler` are set up with: the environment, and the
formats of other libraries. -/
structure Config where
  env : Env
  ns : String
  /-- `AnnounceManager.ttl`. -/
  ttl : Duration
  /-- `CONTROL_PUBLIC_URL`. -/
  publicURL : String
  /-- `CONTROL_HTTP_PORT`. -/
  httpPort : String
  /-- The JSON text of an advertisement. -/
  adText : TaskAd → String
  /-- The JSON text of a `manifestMirror`. -/
  mirrorText : List Provider → Time → String
  /-- The error of `peer.Decode`. -/
  peerError : String → Option String
  /-- Whether `ma.NewMultiaddr` parses the text. -/
  multiaddr : String → Bool

/-- The URL in an advertisement. -/
def Config.demandURL (cfg : Config) : String :=
  if cfg.publicURL ≠ "" then cfg.publicURL
  else
    let durl := "http://127.0.0.1:" ++ cfg.httpPort
    if durl = "http://127.0.0.1:" then "http://127.0.0.1:8080" else durl

/-- `announceAds`. -/
def announceAds (cfg : Config) (id : String) (man : TaskManifest) : SiteCode Unit := do
  let now ← Site.lift timeNow
  let exp := now + cfg.ttl
  Site.lift (putJSON (.taskAd cfg.ns id)
    (cfg.adText ⟨id, cfg.ns, man.rendezvous, cfg.demandURL, exp⟩))
  Site.lift (putJSON (.manifestMirror id) (cfg.mirrorText man.providers exp))

/-- The manifest of a job that has none. -/
def placeholder (now : Time) : TaskManifest where
  rootCID := "noop"
  providers := []
  encMeta := ""
  rendezvous := ""
  transports := []
  version := 1
  updatedAt := now

/-- The part of `announceOnce` that stores the placeholder. -/
def putPlaceholder (id : String) : SiteCode TaskManifest := do
  let now ← Site.lift timeNow
  let _ ← Site.putJSON (.manifest id) (placeholder now)
  pure (placeholder now)

/-- The manifest with which `announceOnce` goes on after its read. -/
def settleManifest (id : String) : Except String TaskManifest → SiteCode TaskManifest
  | .ok man => if man.rootCID = "" then putPlaceholder id else pure man
  | .error _ => putPlaceholder id

/-- The steps of `announceOnce` that settle its manifest: the clock, and the put of the
placeholder. -/
theorem settle_manifest_always {P : Site.Op → Prop} {id : String} (htime : P (.base .timeNow))
    (hput : ∀ now, P (.key (.manifest id) (.putValue (placeholder now))))
    (hkeep : ∀ now, P (.key (.manifest id) (.storeLocal (placeholder now))))
    (result : Except String TaskManifest) :
    (settleManifest id result).Always (fun _ _ => True) P := by
  have hplace : (putPlaceholder id).Always (fun _ _ => True) P := by
    refine Prog.always_bind ⟨htime, fun _ _ => trivial⟩ fun now => ?_
    exact Prog.always_bind (Site.put_json_always_of (hput now) (hkeep now)) fun _ => trivial
  cases result with
  | error e => exact hplace
  | ok man =>
      show (if man.rootCID = "" then putPlaceholder id else pure man).Always _ _
      split
      · exact hplace
      · trivial

/-- The part of `announceOnce` after the manifest. -/
def advertise (cfg : Config) (id : String) (man : TaskManifest) : SiteCode Unit := do
  announceAds cfg id man
  let now ← Site.lift timeNow
  Prog.perform (Site.Op.announced id now)

/-- `announceOnce`. -/
def announceOnce (cfg : Config) (id : String) : SiteCode Unit := do
  let result ← Site.getJSON (.manifest id)
  let man ← settleManifest id result
  advertise cfg id man

/-! ## Manifests -/

/-- `manifestInDTO`. -/
structure ManifestIn where
  rootCID : String
  providers : List Provider
  encMeta : String
  rendezvous : String
  transports : List String
  version : Int
  updatedAt : Time

/-- The manifest that is stored for a request. -/
def ManifestIn.manifest (body : ManifestIn) (updatedAt : Time) : TaskManifest where
  rootCID := body.rootCID
  providers := body.providers
  encMeta := body.encMeta
  rendezvous := body.rendezvous
  transports := body.transports
  version := body.version
  updatedAt := updatedAt

/-- `validateTransports`, with its error. -/
def validateTransports (ts : List String) : Option String :=
  ts.findSome? fun t =>
    if toLowerLatin t ∈ ["quic-v1", "webrtc"] then none else some ("transport not allowed: " ++ t)

/-- `validateProvider`, with its error. -/
def validateProvider (cfg : Config) (p : Provider) : Option String :=
  if p.peerID = "" then some "missing peer_id"
  else match cfg.peerError p.peerID with
    | some e => some ("invalid peer_id: " ++ e)
    | none =>
        if p.addrs = [] then some "addrs empty"
        else p.addrs.findSome? fun a =>
          if ¬ cfg.multiaddr a then some ("invalid multiaddr: " ++ a)
          else if hasPrefix a "http://" || hasPrefix a "https://" then
            some ("http(s) not allowed in addrs: " ++ a)
          else none

/-- The loop of `manifestHandler` over the providers, which a placeholder does not need. -/
def validateProviders (cfg : Config) (body : ManifestIn) : Option String :=
  if body.rootCID = "noop" ∧ body.providers = [] then none
  else body.providers.zipIdx.findSome? fun entry =>
    (validateProvider cfg entry.1).map fun e => "provider[" ++ toString entry.2 ++ "]: " ++ e

/-- The checks of `manifestHandler`, with the job of the request. -/
def manifestRequest (cfg : Config) (r : Request ManifestIn) : Except Reply (String × ManifestIn) :=
  if ¬ requireAuth cfg.env r then .error (.error 401 "unauthorized")
  else match r.parts with
    | ["jobs", id, "manifest"] =>
        match r.body with
        | .error e => .error (.error 400 ("bad json: " ++ e))
        | .ok body =>
            if body.rootCID = "" then .error (.error 400 "root_cid required")
            else match validateTransports body.transports with
              | some e => .error (.error 400 e)
              | none =>
                  match validateProviders cfg body with
                  | some e => .error (.error 400 e)
                  | none => .ok (id, body)
    | _ => .error (.error 400 "bad path")

/-- The time of the stored manifest: that of the request, else the clock. -/
def manifestTime (body : ManifestIn) : SiteCode Time :=
  if body.updatedAt = 0 then Site.lift timeNow else pure body.updatedAt

/-- The last part of `manifestHandler`: the columns of the row, and the announcement. -/
def attachColumns (id : String) (body : ManifestIn) : SiteCode Reply := do
  match ← Site.lift (store (PGStore.attachManifest id
    ⟨body.rootCID, some (body.providers.map Provider.peerID), body.encMeta⟩)) with
  | .error e => pure (.error 500 ("db attach manifest failed: " ++ e.text))
  | .ok _ =>
      Site.lift (enqueue id)
      pure .noContent

/-- The part of `manifestHandler` after the put of the mirror. -/
def afterMirror (id : String) (body : ManifestIn) : Option String → SiteCode Reply
  | some e => pure (.error 500 ("mirror store error: " ++ e))
  | none => attachColumns id body

/-- The part of `manifestHandler` after the manifest is stored. -/
def attachManifest (cfg : Config) (id : String) (body : ManifestIn) : SiteCode Reply := do
  let now ← Site.lift timeNow
  let result ← Site.putMirror (.manifestMirror id)
    (cfg.mirrorText body.providers (now + 2 * 60 * second))
  afterMirror id body result

/-- The part of `manifestHandler` after the put of the manifest. -/
def afterManifest (cfg : Config) (id : String) (body : ManifestIn) :
    Option String → SiteCode Reply
  | some e => pure (.error 500 ("store error: " ++ e))
  | none => attachManifest cfg id body

/-- What `manifestHandler` does for a request that passed its checks. -/
def storeManifest (cfg : Config) (id : String) (body : ManifestIn) : SiteCode Reply := do
  let updatedAt ← manifestTime body
  let result ← Site.putJSON (.manifest id) (body.manifest updatedAt)
  afterManifest cfg id body result

/-- `manifestHandler`. -/
def manifestHandler (cfg : Config) (r : Request ManifestIn) : SiteCode Reply :=
  match manifestRequest cfg r with
  | .error reply => pure reply
  | .ok (id, body) => storeManifest cfg id body

/-! ## Interleavings -/

/-- What runs beside each other: requests to `manifestHandler`, and runs of `announceOnce`. -/
inductive Activity where
  | post (r : Request ManifestIn)
  | announce (id : String)

/-- The code of an activity, with the answer to a request. -/
def Activity.code (cfg : Config) : Activity → SiteCode (Option Reply)
  | post r => do
      let reply ← manifestHandler cfg r
      pure (some reply)
  | announce id => do
      announceOnce cfg id
      pure none

/-- Activities that all are at their start. -/
def activities {τ : Type} (cfg : Config) (kind : τ → Activity) (s : Site) :
    Pool τ Site.Op Site.Op.Response Site (Option Reply) :=
  ⟨s, fun i => (kind i).code cfg⟩

/-- A step with its input and response. -/
abbrev Site.Event := Interaction.Event Site.Op Site.Op.Response Site.Input

/-- The step reads the manifest of the job. -/
def readsManifest (id : String) : Site.Op → Bool
  | .key (.manifest id') .getValue => id' = id
  | _ => false

/-- The step puts a manifest of the job. -/
def putsManifest (id : String) : Site.Op → Bool
  | .key (.manifest id') (.putValue _) => id' = id
  | _ => false

section Manifest

variable {id : String}

/-- The put of a manifest of the job, in full. -/
theorem puts_manifest_iff {c : Site.Op} :
    putsManifest id c = true ↔ ∃ v, c = .key (.manifest id) (.putValue v) := by
  constructor
  · intro h
    unfold putsManifest at h
    split at h
    next id' v =>
        obtain rfl : id' = id := of_decide_eq_true h
        exact ⟨v, rfl⟩
    next => cases h
  · rintro ⟨v, rfl⟩
    exact decide_eq_true rfl

/-- A step that does not put leaves the stored manifest alone. -/
theorem net_kept {c : Site.Op} (h : putsManifest id c = false) (input : Site.Input) (s : Site) :
    ((Site.effect c input s).2.keys (.manifest id)).net = (s.keys (.manifest id)).net := by
  cases c with
  | base | intn | announced => rfl
  | putJSON k v =>
      simp only [Site.effect]
      split <;> rfl
  | listQueued =>
      simp only [Site.effect]
      split <;> rfl
  | key k op =>
      by_cases hk : DirKey.manifest id = k
      · subst hk
        cases op with
        | putValue v => exact absurd h (by simp [putsManifest])
        | getValue | loadLocal | storeLocal | timeNow => simp [Site.effect, Dht.effect]
      · simp [Site.effect, Function.update_of_ne hk]

/-- A put that does not fail stores its manifest. -/
theorem net_put (v : TaskManifest) {input : Site.Input} (hinput : input.dhtFault = false)
    (s : Site) :
    ((Site.effect (.key (.manifest id) (.putValue v)) input s).2.keys (.manifest id)).net =
      some v := by
  simp [Site.effect, Dht.effect, input.onKey_reliable hinput]

/-! ## What the activities put -/

/-- The manifest is the one that the request posted for the job. -/
def Posted (cfg : Config) (r : Request ManifestIn) (id : String) (man : TaskManifest) : Prop :=
  ∃ body, manifestRequest cfg r = .ok (id, body) ∧ man = body.manifest man.updatedAt ∧
    (body.updatedAt ≠ 0 → man.updatedAt = body.updatedAt)

/-- A request without a root is refused. -/
theorem Posted.root_ne {cfg : Config} {r : Request ManifestIn} {man : TaskManifest}
    (h : Posted cfg r id man) : man.rootCID ≠ "" := by
  obtain ⟨body, hreq, hman, -⟩ := h
  rw [hman]
  show body.rootCID ≠ ""
  unfold manifestRequest at hreq
  grind

/-- Which manifests of the job an activity may put. -/
def Activity.Puts (cfg : Config) (id : String) (v : TaskManifest) : Activity → Prop
  | post r => Posted cfg r id v
  | announce id' => id' = id

/-- Every manifest of the job that the step puts satisfies `P`. -/
def PutsOnly (id : String) (P : TaskManifest → Prop) (c : Site.Op) : Prop :=
  ∀ v, c = .key (.manifest id) (.putValue v) → P v

/-- Code on the world puts no manifest. -/
theorem lift_always {α : Type} (p : Code α) (P : TaskManifest → Prop) :
    (Site.lift p).Always (fun _ _ => True) (PutsOnly id P) :=
  Prog.always_embed (fun _ _ => nofun) p

/-- After its put `PutJSON` puts nothing more. -/
theorem keep_local_always {k : DirKey} (w : k.Value) (result : Option String)
    (P : TaskManifest → Prop) :
    (Dht.keepLocal (Site.keyAccess k) w result).Always (fun _ _ => True) (PutsOnly id P) :=
  Site.keep_local_always_of (fun _ heq => by cases heq) result

/-- `PutJSON` puts its value. -/
theorem put_json_always {k : DirKey} {w : k.Value} {P : TaskManifest → Prop}
    (h : PutsOnly id P (.key k (.putValue w))) :
    (Site.putJSON k w).Always (fun _ _ => True) (PutsOnly id P) :=
  Site.put_json_always_of h fun _ heq => by cases heq

/-- `GetJSON` puts nothing. -/
theorem get_json_always (k : DirKey) (P : TaskManifest → Prop) :
    (Site.getJSON k).Always (fun _ _ => True) (PutsOnly id P) :=
  Site.get_json_always_of (fun _ heq => by cases heq) fun _ heq => by cases heq

/-- After its manifest `announceOnce` puts nothing of the directory. -/
theorem advertise_always (cfg : Config) (id' : String) (man : TaskManifest)
    (P : TaskManifest → Prop) :
    (advertise cfg id' man).Always (fun _ _ => True) (PutsOnly id P) := by
  refine Prog.always_bind (Prog.always_bind (lift_always _ P) fun now => ?_) fun _ => ?_
  · exact Prog.always_bind (lift_always _ P) fun _ => lift_always _ P
  · exact Prog.always_bind (lift_always _ P) fun now => ⟨fun _ => nofun, fun _ _ => trivial⟩

/-- A request puts only the manifest that it posted. -/
theorem store_manifest_always {cfg : Config} {r : Request ManifestIn} {id' : String}
    {body : ManifestIn} (hreq : manifestRequest cfg r = .ok (id', body)) :
    (storeManifest cfg id' body).Always (fun _ _ => True) (PutsOnly id (Posted cfg r id)) := by
  -- the time of the manifest is that of the request, or a reading of the clock
  have hstore : ∀ updatedAt, (body.updatedAt ≠ 0 → updatedAt = body.updatedAt) →
      (Site.putJSON (.manifest id') (body.manifest updatedAt)).Always (fun _ _ => True)
        (PutsOnly id (Posted cfg r id)) := by
    intro updatedAt htime
    refine put_json_always fun v heq => ?_
    cases heq
    exact ⟨body, hreq, rfl, htime⟩
  have hrest : ∀ updatedAt, (body.updatedAt ≠ 0 → updatedAt = body.updatedAt) →
      (Site.putJSON (.manifest id') (body.manifest updatedAt) >>= fun
        | some e => pure (.error 500 ("store error: " ++ e))
        | none => attachManifest cfg id' body).Always (fun _ _ => True)
        (PutsOnly id (Posted cfg r id)) := by
    intro updatedAt htime
    refine Prog.always_bind (hstore updatedAt htime) fun result => ?_
    cases result with
    | some e => trivial
    | none =>
        refine Prog.always_bind (lift_always _ _) fun now => ?_
        refine Prog.always_bind ⟨fun _ => nofun, fun _ _ => trivial⟩ fun result => ?_
        cases result with
        | some e => trivial
        | none =>
            refine Prog.always_bind (lift_always _ _) fun result => ?_
            cases result with
            | error e => trivial
            | ok _ => exact Prog.always_bind (lift_always _ _) fun _ => trivial
  unfold storeManifest manifestTime
  split
  next hzero => exact ⟨fun _ => nofun, fun now _ => hrest now fun hne => absurd hzero hne⟩
  next => exact hrest body.updatedAt fun _ => rfl

/-- An activity puts only what it may put. -/
theorem activity_always (cfg : Config) (a : Activity) :
    (a.code cfg).Always (fun _ _ => True) (PutsOnly id fun v => a.Puts cfg id v) := by
  cases a with
  | post r =>
      refine Prog.always_bind ?_ fun _ => trivial
      unfold manifestHandler
      cases hreq : manifestRequest cfg r with
      | error reply => trivial
      | ok call => exact store_manifest_always hreq
  | announce id' =>
      have hput : ∀ now, PutsOnly id (fun _ => id' = id)
          (.key (.manifest id') (.putValue (placeholder now))) := by
        intro now v heq
        cases heq
        rfl
      refine Prog.always_bind ?_ fun _ => trivial
      refine Prog.always_bind (get_json_always _ fun _ => id' = id) fun result => ?_
      refine Prog.always_bind ?_ fun man => advertise_always cfg id' man fun _ => id' = id
      exact settle_manifest_always (fun _ => nofun) hput (fun _ _ => nofun) result

end Manifest

/-! ## Where an announcement stands -/

/-- The points of `announceOnce` up to its placeholder. -/
inductive Stage where
  | reading
  | loading (e : String)
  | stamping
  | placing (now : Time)
  | past

namespace Stage

/-- The announcement has read no manifest, and may still put the placeholder. -/
def pending : Stage → Bool
  | loading _ | stamping | placing _ => true
  | reading | past => false

/-- What an announcement does once it has its manifest. -/
def rest (cfg : Config) (id : String) (man : TaskManifest) : SiteCode (Option Reply) := do
  advertise cfg id man
  pure none

/-- The rest of an announcement at the stage. -/
def Code (cfg : Config) (id : String) (q : SiteCode (Option Reply)) : Stage → Prop
  | reading => q = (Activity.announce id).code cfg
  | loading e => q = .call (.key (.manifest id) .loadLocal) fun
      | some man => settleManifest id (.ok man) >>= rest cfg id
      | none => settleManifest id (.error e) >>= rest cfg id
  | stamping => q = putPlaceholder id >>= rest cfg id
  | placing now => q = Site.putJSON (.manifest id) (placeholder now) >>= fun _ =>
      rest cfg id (placeholder now)
  | past => q.Always (fun _ _ => True) (PutsOnly id fun _ => False)

variable {cfg : Config} {id : String}

/-- What follows the manifest puts nothing. -/
theorem rest_past (man : TaskManifest) : past.Code cfg id (rest cfg id man) :=
  Prog.always_bind (advertise_always cfg id man fun _ => False) fun _ => trivial

/-- With a manifest that has a root nothing is put; else the placeholder is next. -/
theorem settle_code (result : Except String TaskManifest) :
    ∃ stage : Stage, stage.Code cfg id (settleManifest id result >>= rest cfg id) ∧
      (stage.pending → ∀ man, result = .ok man → man.rootCID = "") := by
  cases result with
  | error e => exact ⟨stamping, rfl, fun _ _ => nofun⟩
  | ok man =>
      by_cases hroot : man.rootCID = ""
      · have hsettle : settleManifest id (.ok man) = putPlaceholder id := if_pos hroot
        refine ⟨stamping, by rw [hsettle]; rfl, fun _ man' hman => ?_⟩
        rw [← Except.ok.inj hman]
        exact hroot
      · have hsettle : settleManifest id (.ok man) = pure man := if_neg hroot
        exact ⟨past, by rw [hsettle]; exact rest_past man, nofun⟩

variable {stage : Stage} {s s' : Site} {e : Site.Event}
  {k : e.call.Response → SiteCode (Option Reply)}

/-- One step of an announcement. It comes to a pending stage from another one without a put, or
by a read that failed or found no manifest with a root; and it puts from a pending stage only. -/
theorem step (h : stage.Code cfg id (.call e.call k)) (hanswer : Answers Site.effect s e s') :
    ∃ stage' : Stage, stage'.Code cfg id (k e.response) ∧
      (putsManifest id e.call → stage.pending ∧ ¬ stage'.pending) ∧
      (stage'.pending → stage.pending ∨ readsManifest id e.call ∧
        (e.input.dhtFault = true ∨
          ∀ man, (s.keys (.manifest id)).net = some man → man.rootCID = "")) := by
  obtain ⟨call, input, response⟩ := e
  dsimp only at k h
  cases stage with
  | reading =>
      cases h
      have hresponse : (s.keys (.manifest id)).get input.onKey = response :=
        congrArg Prod.fst hanswer
      have hread : readsManifest id (.key (.manifest id) .getValue) = true := decide_eq_true rfl
      have hfound : input.dhtFault = true ∨ ∀ man, (s.keys (.manifest id)).net = some man →
          (s.keys (.manifest id)).get input.onKey = .ok man := by
        cases hfault : input.dhtFault with
        | true => exact .inl rfl
        | false =>
            refine .inr fun man hman => ?_
            unfold Dht.Register.get
            rw [input.onKey_reliable hfault, hman]
      cases response with
      | ok man =>
          obtain ⟨stage', hcode, hroot⟩ := @settle_code cfg id (.ok man)
          refine ⟨stage', ?_, nofun, fun hpending => .inr ⟨hread, ?_⟩⟩
          · show stage'.Code cfg id
              ((settleManifest id (.ok man) >>= advertise cfg id) >>= fun _ => pure none)
            rw [Prog.bind_assoc]
            exact hcode
          · refine hfound.imp_right fun hnet man' hman' => hroot hpending man' ?_
            rw [← hresponse, hnet man' hman']
      | error e =>
          refine ⟨loading e, ?_, nofun, fun _ => .inr ⟨hread, ?_⟩⟩
          · refine congrArg (Prog.call _) (funext fun result => ?_)
            cases result with
            | none => exact Prog.bind_assoc (settleManifest id (.error e)) _ _
            | some man => exact Prog.bind_assoc (settleManifest id (.ok man)) _ _
          · refine hfound.imp_right fun hnet man' hman' => ?_
            exact nomatch hresponse.symm.trans (hnet man' hman')
  | loading e =>
      cases h
      cases response with
      | some man =>
          obtain ⟨stage', hcode, -⟩ := @settle_code cfg id (.ok man)
          exact ⟨stage', hcode, nofun, fun _ => .inl rfl⟩
      | none => exact ⟨stamping, rfl, nofun, fun _ => .inl rfl⟩
  | stamping =>
      cases h
      refine ⟨placing response, ?_, nofun, fun _ => .inl rfl⟩
      exact Prog.bind_assoc (Site.putJSON (.manifest id) (placeholder response)) _ _
  | placing now =>
      cases h
      refine ⟨past, ?_, fun _ => ⟨rfl, nofun⟩, nofun⟩
      have hlater := @keep_local_always id (.manifest id) (placeholder now) response fun _ => False
      exact Prog.always_bind hlater fun _ => rest_past (placeholder now)
  | past =>
      refine ⟨past, h.2 response trivial, fun hput => ?_, nofun⟩
      obtain ⟨v, hv⟩ := puts_manifest_iff.mp hput
      exact (h.1 v hv).elim

end Stage

/-! ## The stored manifest -/

section Interleaving

variable {τ : Type} [DecidableEq τ] {cfg : Config} {kind : τ → Activity} {id : String}

/-- The step by which a request puts its manifest of the job. -/
def posts (kind : τ → Activity) (id : String) (l : τ × Site.Event) : Bool :=
  match kind l.1 with
  | .post _ => putsManifest id l.2.call
  | .announce _ => false

/-- When an announcement of the job puts its placeholder, no manifest was put since its read, and
if the read failed none was put before it either. -/
def Undisturbed (kind : τ → Activity) (id : String) (history : List (τ × Site.Event)) : Prop :=
  ∀ before j e between f after, history = before ++ (j, e) :: (between ++ (j, f) :: after) →
    kind j = .announce id → readsManifest id e.call → putsManifest id f.call →
    (∀ l ∈ between, posts kind id l = false) ∧
      (e.input.dhtFault = true → ∀ l ∈ before, posts kind id l = false)

/-- The announcement read the manifest, and found none with a root before any was put. -/
def FoundNone (kind : τ → Activity) (id : String) (j : τ) (history : List (τ × Site.Event)) :
    Prop :=
  ∃ before e between, history = before ++ (j, e) :: between ∧ readsManifest id e.call ∧
    (e.input.dhtFault = true ∨ ∀ l ∈ before, posts kind id l = false)

omit [DecidableEq τ] in
/-- A read stays a read of the past. -/
theorem FoundNone.snoc {j : τ} {history : List (τ × Site.Event)} (h : FoundNone kind id j history)
    (l : τ × Site.Event) : FoundNone kind id j (history ++ [l]) := by
  obtain ⟨before, e, between, rfl, hread⟩ := h
  exact ⟨before, e, between ++ [l], by simp, hread⟩

omit [DecidableEq τ] in
/-- An announcement that puts its placeholder undisturbed comes before every manifest. -/
theorem FoundNone.none_posted {j : τ} {history : List (τ × Site.Event)} {e : Site.Event}
    (h : FoundNone kind id j history) (hquiet : Undisturbed kind id (history ++ [(j, e)]))
    (hkind : kind j = .announce id) (hput : putsManifest id e.call) :
    ∀ l ∈ history, posts kind id l = false := by
  obtain ⟨before, read, between, rfl, hread, hbefore⟩ := h
  obtain ⟨hbetween, hfailed⟩ := hquiet before j read between e [] (by simp) hkind hread hput
  intro l hl
  rcases List.mem_append.mp hl with hl | hl
  · exact hbefore.elim (fun hfault => hfailed hfault l hl) fun hnone => hnone l hl
  · rcases List.mem_cons.mp hl with rfl | hl
    · simp [posts, hkind]
    · exact hbetween l hl

/-- The stored manifest is the one that was put last, and every announcement that may still put
the placeholder has found none. -/
structure Kept (cfg : Config) (kind : τ → Activity) (id : String)
    (history : List (τ × Site.Event)) (p : Pool τ Site.Op Site.Op.Response Site (Option Reply)) :
    Prop where
  stage : ∀ j, kind j = .announce id → ∃ stage : Stage, stage.Code cfg id (p.thread j) ∧
    (stage.pending → FoundNone kind id j history)
  stored : ∀ l, (history.filter (posts kind id)).getLast? = some l →
    ∃ v, l.2.call = .key (.manifest id) (.putValue v) ∧
      (p.shared.keys (.manifest id)).net = some v

variable {s : Site} {history : List (τ × Site.Event)}
  {p p' : Pool τ Site.Op Site.Op.Response Site (Option Reply)}

omit [DecidableEq τ] in
/-- A step that posts is a put by a request. -/
theorem posts_iff {l : τ × Site.Event} :
    posts kind id l = true ↔ (∃ r, kind l.1 = .post r) ∧ putsManifest id l.2.call = true := by
  unfold posts
  cases hkind : kind l.1 <;> simp

omit [DecidableEq τ] in
/-- Where no manifest with a root is stored, none was put. -/
theorem Kept.none_posted (h : Kept cfg kind id history p)
    (hputs : ∀ l ∈ history, ∀ v, l.2.call = .key (.manifest id) (.putValue v) →
      (kind l.1).Puts cfg id v)
    (hroot : ∀ man, (p.shared.keys (.manifest id)).net = some man → man.rootCID = "") :
    ∀ l ∈ history, posts kind id l = false := by
  intro l hl
  by_contra hposts
  have hne : history.filter (posts kind id) ≠ [] :=
    List.ne_nil_of_mem (List.mem_filter.mpr ⟨hl, Bool.not_eq_false _ ▸ hposts⟩)
  -- the manifest that was put last is stored, and a posted manifest has a root
  obtain ⟨v, hcall, hnet⟩ := h.stored _ (List.getLast?_eq_some_getLast hne)
  obtain ⟨hmem, hlast⟩ := List.mem_filter.mp (List.getLast_mem hne)
  obtain ⟨⟨r, hr⟩, -⟩ := posts_iff.mp hlast
  have hposted := hputs _ hmem v hcall
  rw [hr] at hposted
  exact Posted.root_ne hposted (hroot v hnet)

/-- An announcement that comes to a pending stage has found no manifest. -/
theorem Kept.stage_step {j : τ} {e : Site.Event} (h : Kept cfg kind id history p)
    (hstep : Pool.Step Site.effect p (j, e) p')
    (hputs : ∀ l ∈ history, ∀ v, l.2.call = .key (.manifest id) (.putValue v) →
      (kind l.1).Puts cfg id v) {i : τ} (hi : kind i = .announce id) :
    ∃ stage : Stage, stage.Code cfg id (p'.thread i) ∧
      (stage.pending → FoundNone kind id i (history ++ [(j, e)])) := by
  obtain ⟨k, hcall, hanswer, hthreads⟩ := hstep
  obtain ⟨stage, hcode, hfound⟩ := h.stage i hi
  by_cases hij : i = j
  · subst hij
    rw [hcall] at hcode
    obtain ⟨stage', hcode', -, hpending⟩ := Stage.step hcode hanswer
    refine ⟨stage', by rw [hthreads, Function.update_self]; exact hcode', fun hp => ?_⟩
    rcases hpending hp with hold | ⟨hread, hroot⟩
    · exact (hfound hold).snoc _
    · exact ⟨history, e, [], rfl, hread, hroot.imp_right (h.none_posted hputs)⟩
  · refine ⟨stage, by rw [hthreads, Function.update_of_ne hij]; exact hcode, fun hp => ?_⟩
    exact (hfound hp).snoc _

/-- An announcement puts before every request. -/
theorem Kept.announced_first {j : τ} {e : Site.Event} (h : Kept cfg kind id history p)
    (hstep : Pool.Step Site.effect p (j, e) p') (hkind : kind j = .announce id)
    (hput : putsManifest id e.call) (hquiet : Undisturbed kind id (history ++ [(j, e)])) :
    (history ++ [(j, e)]).filter (posts kind id) = [] := by
  obtain ⟨k, hcall, hanswer, -⟩ := hstep
  obtain ⟨stage, hcode, hfound⟩ := h.stage j hkind
  rw [hcall] at hcode
  obtain ⟨_, _, hpending, _⟩ := Stage.step hcode hanswer
  have hnone := (hfound (hpending hput).1).none_posted hquiet hkind hput
  refine List.filter_eq_nil_iff.mpr fun l hl => ?_
  rcases List.mem_append.mp hl with hl | hl
  · simp [hnone l hl]
  · simp [List.mem_singleton.mp hl, posts, hkind]

/-- One step keeps the stored manifest, as long as its announcement is undisturbed. -/
theorem Kept.step {l : τ × Site.Event} (h : Kept cfg kind id history p)
    (hstep : Pool.Step Site.effect p l p')
    (hputs : ∀ x ∈ history ++ [l], ∀ v, x.2.call = .key (.manifest id) (.putValue v) →
      (kind x.1).Puts cfg id v)
    (hreliable : putsManifest id l.2.call → l.2.input.dhtFault = false)
    (hquiet : Undisturbed kind id (history ++ [l])) :
    Kept cfg kind id (history ++ [l]) p' := by
  obtain ⟨j, e⟩ := l
  have hstate : p'.shared = (Site.effect e.call e.input p.shared).2 := by
    obtain ⟨_, _, hanswer, _⟩ := hstep
    exact (congrArg Prod.snd hanswer).symm
  refine ⟨fun i hi => h.stage_step hstep (fun x hx => hputs x (List.mem_append_left _ hx)) hi, ?_⟩
  intro x hx
  cases hput : putsManifest id e.call with
  | false =>
      -- neither the stored manifest nor the list of puts changes
      have hposts : ¬ posts kind id (j, e) = true := by
        intro htrue
        rw [(posts_iff.mp htrue).2] at hput
        cases hput
      rw [List.filter_append, List.filter_cons_of_neg hposts, List.filter_nil,
        List.append_nil] at hx
      obtain ⟨v, hv, hnet⟩ := h.stored x hx
      refine ⟨v, hv, ?_⟩
      rw [hstate, net_kept hput]
      exact hnet
  | true =>
      obtain ⟨v, hv⟩ := puts_manifest_iff.mp hput
      have hmay := hputs (j, e) (by simp) v hv
      cases hkind : kind j with
      | post r =>
          have hposts : posts kind id (j, e) = true := posts_iff.mpr ⟨⟨r, hkind⟩, hput⟩
          rw [List.filter_append, List.filter_cons_of_pos hposts, List.filter_nil,
            List.getLast?_concat] at hx
          obtain rfl := Option.some.inj hx
          refine ⟨v, hv, ?_⟩
          rw [hstate, hv]
          exact net_put v (hreliable hput) p.shared
      | announce id' =>
          have hsame : id' = id := by simpa [hkind, Activity.Puts] using hmay
          rw [hsame] at hkind
          rw [h.announced_first hstep hkind hput hquiet] at hx
          cases hx

/-- The manifest that was put last is stored, and the posted manifests are those of the
requests. -/
theorem kept_run (hexec : Execution (Pool.Step Site.effect) (activities cfg kind s) history p)
    (hreliable : ∀ l ∈ history, putsManifest id l.2.call → l.2.input.dhtFault = false)
    (hquiet : Undisturbed kind id history) :
    Kept cfg kind id history p ∧
      ∀ l ∈ history, ∀ v, l.2.call = .key (.manifest id) (.putValue v) →
        (kind l.1).Puts cfg id v := by
  have hputs := (Pool.always hexec (fun _ _ => trivial)
    fun i => @activity_always id cfg (kind i)).1
  refine ⟨?_, hputs⟩
  induction hexec with
  | refl =>
      refine ⟨fun j hj => ⟨.reading, ?_, nofun⟩, fun l hl => by simp at hl⟩
      show (kind j).code cfg = _
      rw [hj]
  | @snoc before middle finish l _ hstep ih =>
      have hbefore : Undisturbed kind id before := by
        intro start j e between f after heq
        exact hquiet start j e between f (after ++ [l]) (by simp [heq])
      have hmiddle := ih (fun x hx => hreliable x (List.mem_append_left _ hx)) hbefore
        fun x hx => hputs x (List.mem_append_left _ hx)
      exact hmiddle.step hstep hputs (hreliable l (by simp)) hquiet

/-- A request that passed the checks and has ended has put its manifest. -/
theorem put_of_ended (hexec : Execution (Pool.Step Site.effect) (activities cfg kind s) history p)
    {i : τ} {r : Request ManifestIn} {body : ManifestIn} {reply : Option Reply}
    (hkind : kind i = .post r) (hreq : manifestRequest cfg r = .ok (id, body))
    (hend : p.thread i = .done reply) : ∃ l ∈ history, l.1 = i ∧ posts kind id l = true := by
  have hcode : ((Activity.post r).code cfg).Inevitably (fun _ _ => True)
      fun c => putsManifest id c = true := by
    have hput : putsManifest id (.key (.manifest id) (.putValue (body.manifest body.updatedAt))) =
        true := decide_eq_true rfl
    simp only [Activity.code, manifestHandler, hreq, storeManifest, manifestTime]
    split
    · exact .inr fun _ _ => .inl (decide_eq_true rfl)
    · exact .inl hput
  have hstart : ((activities cfg kind s).thread i).Inevitably (fun _ _ => True)
      fun c => putsManifest id c = true := by
    show ((kind i).code cfg).Inevitably _ _
    rw [hkind]
    exact hcode
  obtain ⟨l, hl, rfl, hput⟩ := Pool.inevitably hexec (fun _ _ => trivial) hstart hend
  exact ⟨l, hl, rfl, posts_iff.mpr ⟨⟨r, hkind⟩, hput⟩⟩

/-- The manifest that was put last is stored. -/
theorem last_put_stored
    (hexec : Execution (Pool.Step Site.effect) (activities cfg kind s) history p)
    (hreliable : ∀ l ∈ history, putsManifest id l.2.call → l.2.input.dhtFault = false)
    (hquiet : Undisturbed kind id history) {l : τ × Site.Event}
    (hlast : (history.filter (posts kind id)).getLast? = some l) :
    ∃ r man, kind l.1 = .post r ∧ Posted cfg r id man ∧
      (p.shared.keys (.manifest id)).net = some man := by
  obtain ⟨hkept, hputs⟩ := kept_run hexec hreliable hquiet
  obtain ⟨man, hcall, hnet⟩ := hkept.stored l hlast
  obtain ⟨hmem, hposts⟩ := List.mem_filter.mp (List.mem_of_getLast? hlast)
  obtain ⟨⟨r, hkind⟩, -⟩ := posts_iff.mp hposts
  have hposted := hputs l hmem man hcall
  rw [hkind] at hposted
  exact ⟨r, man, hkind, hposted, hnet⟩

/-- Any number of requests and announcements, where no put of the job's manifest fails but any
read may. When every announcement of the job is undisturbed, the manifest of a request that was
answered stays stored until another request puts one. -/
theorem manifest_kept
    (hexec : Execution (Pool.Step Site.effect) (activities cfg kind s) history p)
    (hreliable : ∀ l ∈ history, putsManifest id l.2.call → l.2.input.dhtFault = false)
    (hquiet : Undisturbed kind id history) {i : τ} {r : Request ManifestIn} {body : ManifestIn}
    (hkind : kind i = .post r) (hreq : manifestRequest cfg r = .ok (id, body))
    (hanswer : p.thread i = .done (some .noContent))
    (hlast : ∀ before l after, history = before ++ l :: after → l.1 = i → posts kind id l →
      ∀ x ∈ after, posts kind id x = false) :
    ∃ man, Posted cfg r id man ∧ (p.shared.keys (.manifest id)).net = some man := by
  obtain ⟨l, hl, hli, hposts⟩ := put_of_ended hexec hkind hreq hanswer
  obtain ⟨before, after, hsplit⟩ := List.append_of_mem hl
  have hafter : after.filter (posts kind id) = [] :=
    List.filter_eq_nil_iff.mpr fun x hx => by simp [hlast before l after hsplit hli hposts x hx]
  have hfinal : (history.filter (posts kind id)).getLast? = some l := by
    rw [hsplit, List.filter_append, List.filter_cons_of_pos hposts, hafter]
    exact List.getLast?_concat
  obtain ⟨r', man, hkind', hposted, hnet⟩ := last_put_stored hexec hreliable hquiet hfinal
  rw [hli, hkind] at hkind'
  obtain rfl := Activity.post.inj hkind'
  exact ⟨man, hposted, hnet⟩

end Interleaving

/-! ## A placeholder in the place of a manifest -/

namespace Sample

/-- A control server that accepts every peer and every address. -/
def setup : Config where
  env := noAuth
  ns := "mc"
  ttl := 60 * second
  publicURL := ""
  httpPort := "8080"
  adText ad := ad.jobID
  mirrorText _ _ := ""
  peerError _ := none
  multiaddr _ := true

/-- A manifest of the task that `posted` creates. -/
def inputsOf : ManifestIn where
  rootCID := "root"
  providers := [⟨"peer", ["/ip4/10.0.0.1/udp/4001/quic-v1"], [], []⟩]
  encMeta := ""
  rendezvous := ""
  transports := ["quic-v1"]
  version := 1
  updatedAt := 5

/-- The manifest is posted. -/
def postManifest : Request ManifestIn where
  method := "POST"
  path := "/jobs/job/manifest"
  header _ := ""
  body := .ok inputsOf

/-- The request, and one announcement of its job. -/
def pair : Bool → Activity
  | false => .post postManifest
  | true => .announce "job"

/-- The two, by turns. -/
def turns (plan : List (Bool × Site.Input)) :
    List (Bool × Site.Event) × Pool Bool Site.Op Site.Op.Response Site (Option Reply) :=
  Pool.schedule Site.effect plan (activities setup pair postedSite)

/-- The steps of the request. -/
def posting : List (Bool × Site.Input) := List.replicate 5 (false, still 0)

/-- The announcement follows the request. -/
def following : List (Bool × Site.Input) := posting ++ List.replicate 6 (true, still 0)

/-- The request falls between the read and the put of the announcement. -/
def between : List (Bool × Site.Input) :=
  List.replicate 3 (true, still 0) ++ posting ++ List.replicate 6 (true, still 0)

/-- The announcement follows the request, and its read times out. -/
def timedOut : List (Bool × Site.Input) :=
  posting ++ (true, { now := 1, dhtFault := true }) :: List.replicate 8 (true, still 0)

end Sample

/-- An announcement that follows the request finds its manifest. -/
theorem manifest_kept_following :
    Undisturbed Sample.pair "job" (Sample.turns Sample.following).1 ∧
      ∃ man, Posted Sample.setup Sample.postManifest "job" man ∧
        ((Sample.turns Sample.following).2.shared.keys (.manifest "job")).net = some man := by
  have hquiet : Undisturbed Sample.pair "job" (Sample.turns Sample.following).1 := by
    -- the announcement puts nothing
    have hnone : ∀ l ∈ (Sample.turns Sample.following).1, l.1 = true →
        putsManifest "job" l.2.call = false := by decide +kernel
    intro before j e between f after hsplit hkind _ hput
    have hf : (j, f) ∈ (Sample.turns Sample.following).1 := by
      rw [hsplit]
      simp
    cases j with
    | false => cases hkind
    | true =>
        rw [hnone _ hf rfl] at hput
        cases hput
  -- the request puts once
  have honce : ((Sample.turns Sample.following).1.filter (posts Sample.pair "job")).length = 1 := by
    decide +kernel
  have hlast : ∀ before l after, (Sample.turns Sample.following).1 = before ++ l :: after →
      l.1 = false → posts Sample.pair "job" l →
      ∀ x ∈ after, posts Sample.pair "job" x = false := by
    intro before l after hsplit _ hposts x hx
    rw [hsplit, List.filter_append, List.filter_cons_of_pos hposts, List.length_append,
      List.length_cons] at honce
    have hafter : after.filter (posts Sample.pair "job") = [] :=
      List.eq_nil_of_length_eq_zero (by omega)
    simpa using List.filter_eq_nil_iff.mp hafter x hx
  have hreq : manifestRequest Sample.setup Sample.postManifest = .ok ("job", Sample.inputsOf) := rfl
  exact ⟨hquiet, manifest_kept (Pool.schedule_execution _ _ _) (by decide +kernel) hquiet rfl
    hreq rfl hlast⟩

/-- The request is answered, and the placeholder has replaced its manifest: when the request falls
between the read and the put of the announcement, although nothing fails, and when the read of a
later announcement times out. -/
theorem placeholder_replaces_manifest :
    ((∀ l ∈ (Sample.turns Sample.between).1, l.2.input.dhtFault = false) ∧
      (Sample.turns Sample.between).2.thread false = .done (some .noContent) ∧
      ((Sample.turns Sample.between).2.shared.keys (.manifest "job")).net =
        some (placeholder 1)) ∧
    (Sample.turns Sample.timedOut).2.thread false = .done (some .noContent) ∧
      ((Sample.turns Sample.timedOut).2.shared.keys (.manifest "job")).net =
        some (placeholder 1) :=
  ⟨⟨by decide +kernel, rfl, by decide +kernel⟩, rfl, by decide +kernel⟩

end MutualCloud.Control
