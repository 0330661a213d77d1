import MutualCloud.Control.Announce

/-!
# How providers reach an agent

The control server checks the providers of a posted manifest (`validateProvider`) and writes them
to a mirror, which `announceOnce` writes again and again. The discoverer of an agent
(`pkg/agent/discover.go`) reads the mirror and drops the providers it cannot use
(`filterProviders`). The two checks are written apart. They agree but for what only the control
server decodes (`filter_providers_eq`), so the filter drops nothing that was accepted, and the
agent is offered the providers that were posted (`providers_reach_agent`).
-/

namespace MutualCloud.Agent

open Go KeyedTable Interaction Labelled Control

/-! ## The discoverer -/

/-- `ManifestAd`, without the fields that nothing reads. -/
structure ManifestAd where
  providers : List Provider
  exp : Time

/-- `Discoverer`, with the decoders of its records, which return nothing for a text that they do
not decode. -/
structure Discoverer where
  ns : String
  decodeAd : String → Option TaskAd
  decodeMirror : String → Option ManifestAd

/-- `dv.d.GetJSON(k, &v, timeout)`, up to the decoding. -/
def getJSON (k : DhtKey) : SiteCode (Option k.Value) := Prog.perform (Site.Op.base (.getJSON k))

/-- `time.Now()`. -/
def timeNow : SiteCode Time := Prog.perform (Site.Op.base .timeNow)

/-- The part of a read after the get: a record that has expired is not returned. -/
def checkExp {α : Type} (exp : α → Time) : Option α → SiteCode (Option α)
  | none => pure none
  | some v => do
      let now ← timeNow
      pure (if exp v < now then none else some v)

/-- Reads a record that expires. The callers do not look at the error. -/
def readFresh {α : Type} (k : DhtKey) (decode : k.Value → Option α) (exp : α → Time) :
    SiteCode (Option α) := do
  let found ← getJSON k
  checkExp exp (found.bind decode)

/-- `readTaskAd`. -/
def Discoverer.readTaskAd (dv : Discoverer) (id : String) : SiteCode (Option TaskAd) :=
  readFresh (.taskAd dv.ns id) dv.decodeAd TaskAd.exp

/-- `readManifestMirror`. -/
def Discoverer.readManifestMirror (dv : Discoverer) (id : String) : SiteCode (Option ManifestAd) :=
  readFresh (.manifestMirror id) dv.decodeMirror ManifestAd.exp

/-- The loop of `filterProviders` over the addresses finds a bad one. -/
def badAddrs (addrs : List String) : Bool :=
  addrs.any fun a => hasPrefix a "http://" || hasPrefix a "https://"

/-- `filterProviders`. -/
def filterProviders (ps : List Provider) : List Provider :=
  ps.foldl (fun out p =>
    if p.peerID = "" ∨ p.addrs = [] then out
    else if badAddrs p.addrs then out
    else out ++ [p]) []

/-- The arguments of a call of `onCandidate`, where `none` is the list `nil`. -/
structure Offer where
  jobID : String
  providers : Option (List Provider)
  demandURL : String

/-- What `handleJob` leaves: the call of `onCandidate`, if it makes one, and the entry of the job
in `seen`. -/
structure Handled where
  offer : Option Offer
  seen : Option Time

/-- The part of `handleJob` after the mirror, with its call of `onCandidate`. -/
def passOn (id : String) (seen : Option Time) (ad : TaskAd) : Option ManifestAd → SiteCode Handled
  | none => pure ⟨none, seen⟩
  | some m => do
      let providers := filterProviders m.providers
      let offer : Offer := ⟨id, if providers = [] then none else some providers, ad.demandURL⟩
      let now ← timeNow
      pure ⟨some offer, some now⟩

/-- The part of `handleJob` after the advertisement. -/
def Discoverer.offerJob (dv : Discoverer) (id : String) (seen : Option Time) (ad : TaskAd) :
    SiteCode Handled := do
  let m ← dv.readManifestMirror id
  passOn id seen ad m

/-- The job was handled less than half a second ago. -/
def seenLately : Option Time → SiteCode Bool
  | none => pure false
  | some t => do
      let now ← timeNow
      pure (now - t < second / 2)

/-- `handleJob`, for a job with this entry in `seen`. -/
def Discoverer.handleJob (dv : Discoverer) (id : String) (seen : Option Time) :
    SiteCode Handled :=
  if id = "" then pure ⟨none, seen⟩
  else do
    let st ← getJSON (.state id)
    if st.any fun st => st.status ≠ .queued then pure ⟨none, seen⟩
    else if ← seenLately seen then pure ⟨none, seen⟩
    else match ← dv.readTaskAd id with
      | none => pure ⟨none, seen⟩
      | some ad => dv.offerJob id seen ad

/-! ## The two checks -/

/-- The provider is one that `filterProviders` keeps. -/
def Usable (p : Provider) : Prop :=
  ¬ (p.peerID = "" ∨ p.addrs = []) ∧ ¬ badAddrs p.addrs

instance : DecidablePred Usable := fun _ => inferInstanceAs (Decidable (_ ∧ _))

/-- The loop of `filterProviders` appends the usable providers. -/
theorem filter_providers_loop (ps out : List Provider) :
    ps.foldl (fun out p =>
      if p.peerID = "" ∨ p.addrs = [] then out
      else if badAddrs p.addrs then out
      else out ++ [p]) out = out ++ ps.filter Usable := by
  induction ps generalizing out with
  | nil => simp
  | cons p rest ih =>
      rw [List.foldl_cons, ih, List.filter_cons]
      by_cases hempty : p.peerID = "" ∨ p.addrs = []
      · simp [Usable, hempty]
      · by_cases hbad : badAddrs p.addrs
        · simp [Usable, hbad, hempty]
        · simp [Usable, hbad, hempty]

/-- `filterProviders` keeps the usable providers in their order. -/
theorem filter_providers_usable (ps : List Provider) : filterProviders ps = ps.filter Usable :=
  filter_providers_loop ps []

/-- The control server with libraries that decode every peer and every address. What is left of
`validateProvider` is the part that does not decode. -/
def undecoded (cfg : Config) : Config :=
  { cfg with peerError := fun _ => none, multiaddr := fun _ => true }

/-- An address is accepted when it parses and is not one of HTTP. -/
theorem validate_addr_iff (cfg : Config) (addrs : List String) :
    (addrs.findSome? fun a =>
      if ¬ cfg.multiaddr a then some ("invalid multiaddr: " ++ a)
      else if hasPrefix a "http://" || hasPrefix a "https://" then
        some ("http(s) not allowed in addrs: " ++ a)
      else none) = none ↔ (∀ a ∈ addrs, cfg.multiaddr a = true) ∧ ¬ badAddrs addrs := by
  rw [List.findSome?_eq_none_iff]
  constructor
  · intro h
    refine ⟨fun a ha => ?_, fun hbad => ?_⟩
    · by_contra hmulti
      have hnone := h a ha
      simp [hmulti] at hnone
    · obtain ⟨a, ha, hhttp⟩ := List.any_eq_true.mp hbad
      have hnone := h a ha
      rw [if_pos hhttp] at hnone
      split at hnone <;> cases hnone
  · intro h a ha
    have hhttp : ¬ (hasPrefix a "http://" || hasPrefix a "https://") = true := by
      intro htrue
      exact h.2 (List.any_eq_true.mpr ⟨a, ha, htrue⟩)
    rw [if_neg (by simp [h.1 a ha]), if_neg hhttp]

/-- What `validateProvider` accepts: a usable provider that decodes. -/
theorem validate_provider_iff (cfg : Config) (p : Provider) :
    validateProvider cfg p = none ↔
      Usable p ∧ cfg.peerError p.peerID = none ∧ ∀ a ∈ p.addrs, cfg.multiaddr a = true := by
  unfold validateProvider Usable
  by_cases hpeer : p.peerID = ""
  · simp [hpeer]
  · rw [if_neg hpeer]
    cases herror : cfg.peerError p.peerID with
    | some e => simp
    | none =>
        by_cases haddrs : p.addrs = []
        · simp [haddrs]
        · dsimp only
          rw [if_neg haddrs, validate_addr_iff]
          simp [hpeer, haddrs, and_comm]

/-- Without decoding, `validateProvider` accepts the usable providers. -/
theorem validate_undecoded_iff (cfg : Config) (p : Provider) :
    validateProvider (undecoded cfg) p = none ↔ Usable p := by
  rw [validate_provider_iff]
  simp [undecoded]

/-- The two checks agree: the filter keeps, in their order, the providers that pass the part of
`validateProvider` that does not decode. -/
theorem filter_providers_eq (cfg : Config) (ps : List Provider) :
    filterProviders ps = ps.filter fun p => validateProvider (undecoded cfg) p = none := by
  rw [filter_providers_usable]
  refine List.filter_congr fun p _ => ?_
  exact decide_eq_decide.mpr (validate_undecoded_iff cfg p).symm

theorem filter_providers_idempotent (ps : List Provider) :
    filterProviders (filterProviders ps) = filterProviders ps := by
  simp [filter_providers_usable, List.filter_filter]

/-- The providers of a request that passed the checks are usable. -/
theorem usable_of_request {cfg : Config} {r : Request ManifestIn} {id : String} {body : ManifestIn}
    (hreq : manifestRequest cfg r = .ok (id, body)) : ∀ p ∈ body.providers, Usable p := by
  have hvalid : validateProviders cfg body = none := by
    unfold manifestRequest at hreq
    grind
  intro p hp
  unfold validateProviders at hvalid
  split at hvalid
  next hnoop =>
      rw [hnoop.2] at hp
      cases hp
  next =>
      obtain ⟨n, hn⟩ := List.mem_iff_getElem?.mp hp
      have hnone := List.findSome?_eq_none_iff.mp hvalid (p, n)
        (List.mem_zipIdx_iff_getElem?.mpr hn)
      exact ((validate_provider_iff cfg p).mp (Option.map_eq_none_iff.mp hnone)).1

/-- The filter drops no provider of a request that passed the checks. -/
theorem filter_accepted {cfg : Config} {r : Request ManifestIn} {id : String} {body : ManifestIn}
    (hreq : manifestRequest cfg r = .ok (id, body)) :
    filterProviders body.providers = body.providers := by
  rw [filter_providers_usable, List.filter_eq_self]
  intro p hp
  exact decide_eq_true (usable_of_request hreq p hp)

/-! ## What an agent makes of the mirror -/

section Agent

variable {dv : Discoverer} {id : String} {seen : Option Time} {handled : Handled}
  {before after : List Site.Event} {input : Site.Input} {text : String}

/-- A read of the mirror that returned a text. -/
def mirrorRead (id : String) (input : Site.Input) (text : String) : Site.Event :=
  ⟨.base (.getJSON (.manifestMirror id)), input, some text⟩

/-- After its get a read only looks at the clock. -/
theorem check_exp_always {α : Type} {P : Site.Op → Prop} (hclock : P (.base .timeNow))
    (exp : α → Time) (found : Option α) : (checkExp exp found).Always (fun _ _ => True) P := by
  cases found with
  | none => trivial
  | some v => exact ⟨hclock, fun _ _ => trivial⟩

/-- After the mirror `handleJob` only looks at the clock. -/
theorem pass_on_always {P : Site.Op → Prop} (hclock : P (.base .timeNow)) (id : String)
    (seen : Option Time) (ad : TaskAd) (m : Option ManifestAd) :
    (passOn id seen ad m).Always (fun _ _ => True) P := by
  cases m with
  | none => trivial
  | some m => exact ⟨hclock, fun _ _ => trivial⟩

/-- The call that reads the mirror comes after the checks of `handleJob` and the advertisement. -/
theorem handle_job_ends
    (h : (dv.handleJob id seen).Ends (before ++ mirrorRead id input text :: after) handled) :
    ∃ ad first, (dv.offerJob id seen ad).Ends (first ++ mirrorRead id input text :: after)
      handled := by
  unfold Discoverer.handleJob at h
  split at h
  · exact absurd h Prog.not_ends_done
  · obtain ⟨st, first, h⟩ := h.skip ⟨nofun, fun _ _ => trivial⟩
    split at h
    · exact absurd h Prog.not_ends_done
    · have hseen : (seenLately seen).Always (fun _ _ => True)
          fun c => c ≠ (mirrorRead id input text).call := by
        cases seen with
        | none => trivial
        | some t => exact ⟨nofun, fun _ _ => trivial⟩
      obtain ⟨lately, first, h⟩ := h.skip hseen
      split at h
      · exact absurd h Prog.not_ends_done
      · have had : (dv.readTaskAd id).Always (fun _ _ => True)
            fun c => c ≠ (mirrorRead id input text).call :=
          ⟨nofun, fun _ _ => check_exp_always nofun _ _⟩
        obtain ⟨ad, first, h⟩ := h.skip had
        cases ad with
        | none => exact absurd h Prog.not_ends_done
        | some ad => exact ⟨ad, first, h⟩

/-- After the mirror an agent reads its clock, and offers the job unless the mirror has expired. -/
theorem offer_job_ends {ad : TaskAd} {m : ManifestAd}
    (h : (dv.offerJob id seen ad).Ends (before ++ mirrorRead id input text :: after) handled)
    (hm : dv.decodeMirror text = some m) :
    ∃ clock now rest, after = ⟨.base .timeNow, clock, now⟩ :: rest ∧
      handled.offer.map (fun offer => (offer.jobID, offer.providers.getD [])) =
        if m.exp < now then none else some (id, filterProviders m.providers) := by
  have hrest : (checkExp ManifestAd.exp ((some text).bind dv.decodeMirror) >>=
      passOn id seen ad).Ends after handled := by
    refine Prog.Ends.of_call h fun found => ?_
    exact Prog.always_bind (check_exp_always nofun _ _) fun m => pass_on_always nofun id seen ad m
  rw [Option.bind_some, hm] at hrest
  change (Prog.call (Site.Op.base .timeNow) fun now =>
    passOn id seen ad (if m.exp < now then none else some m)).Ends after handled at hrest
  cases hrest with
  | @call _ _ rest _ clock now hpass =>
      refine ⟨clock, now, rest, rfl, ?_⟩
      dsimp only at hpass
      by_cases hexp : m.exp < now
      · rw [if_pos hexp] at hpass ⊢
        cases hpass
        rfl
      · rw [if_neg hexp] at hpass ⊢
        cases hpass with
        | call _ _ hend =>
            cases hend
            by_cases hnil : filterProviders m.providers = []
            · simp [hnil]
            · simp [hnil]

end Agent

/-! ## What the control server writes to the mirror -/

section Mirror

variable {cfg : Config} {r : Request ManifestIn} {id : String} {body : ManifestIn}

/-- The text that a put of a record puts to the mirror of the job. -/
def mirrorPut (id : String) : (k : DhtKey) → k.Value → Option String
  | .manifestMirror k, text => if k = id then some text else none
  | .state _, _ | .lease _, _ | .taskAd _ _, _ => none

/-- The text that a step puts to the mirror of the job. -/
def mirrored (id : String) : Site.Op → Option String
  | .base (.putJSON k v) | .putJSON k v => mirrorPut id k v
  | .base (.delJSON k) => mirrorPut id k k.tombstone
  | _ => none

/-- The step writes the mirror of the job. -/
def writesMirror (id : String) (e : Site.Event) : Bool :=
  (mirrored id e.call).isSome && !e.input.dhtFault

/-- The mirror after a put of any record. -/
theorem mirror_update (dht : Dht) (k : DhtKey) (v : k.Value) :
    Function.update dht k (some v) (.manifestMirror id) =
      (mirrorPut id k v).or (dht (.manifestMirror id)) := by
  by_cases hk : DhtKey.manifestMirror id = k
  · subst hk
    simp [mirrorPut]
  · rw [Function.update_of_ne hk]
    cases k with
    | manifestMirror id' =>
        have hid : id' ≠ id := fun heq => hk (by rw [heq])
        simp [mirrorPut, hid]
    | state | lease | taskAd => rfl

/-- The mirror after a step: the text that it puts, when the DHT answers, else the text before. -/
theorem mirror_step {s s' : Site} {e : Site.Event} (h : Answers Site.effect s e s') :
    s'.world.dht (.manifestMirror id) =
      if e.input.dhtFault then s.world.dht (.manifestMirror id)
      else (mirrored id e.call).or (s.world.dht (.manifestMirror id)) := by
  obtain ⟨call, input, response⟩ := e
  obtain rfl : (Site.effect call input s).2 = s' := congrArg Prod.snd h
  cases hfault : input.dhtFault <;> cases call with
  | base c =>
      cases c with
      | putJSON | delJSON => simp [Site.effect, Control.effect, hfault, mirrored, mirror_update]
      | sql | getJSON | timeNow | enqueue => rfl
  | putJSON k v => simp [Site.effect, hfault, mirrored, mirror_update]
  | listQueued =>
      simp only [Site.effect]
      split <;> rfl
  | key | intn | announced => rfl

/-- A step that writes the mirror leaves its text. -/
theorem mirror_of_writes {s s' : Site} {e : Site.Event} (h : Answers Site.effect s e s')
    (hwrites : writesMirror id e = true) :
    s'.world.dht (.manifestMirror id) = mirrored id e.call := by
  obtain ⟨hsome, hanswers⟩ := Bool.and_eq_true_iff.mp hwrites
  obtain ⟨text, htext⟩ := Option.isSome_iff_exists.mp hsome
  rw [mirror_step h, if_neg (by simpa using hanswers), htext]
  rfl

/-- Any other step leaves the mirror as it is. -/
theorem mirror_of_not_writes {s s' : Site} {e : Site.Event} (h : Answers Site.effect s e s')
    (hwrites : ¬ writesMirror id e = true) :
    s'.world.dht (.manifestMirror id) = s.world.dht (.manifestMirror id) := by
  rw [mirror_step h]
  split
  · rfl
  · next hanswers =>
      cases htext : mirrored id e.call with
      | none => rfl
      | some text => exact absurd (by simp [writesMirror, htext, hanswers]) hwrites

/-- What a step puts to the mirror of the job are these providers. -/
def MirrorOf (cfg : Config) (id : String) (ps : List Provider) (c : Site.Op) : Prop :=
  ∀ text, mirrored id c = some text → ∃ exp, text = cfg.mirrorText ps exp

/-- A request puts its providers to the mirror. -/
theorem post_mirrors (hreq : manifestRequest cfg r = .ok (id, body)) :
    ((Activity.post r).code cfg).Always (fun _ _ => True) (MirrorOf cfg id body.providers) := by
  have hattach : (attachManifest cfg id body).Always (fun _ _ => True)
      (MirrorOf cfg id body.providers) := by
    refine Prog.always_bind ⟨fun _ => nofun, fun _ _ => trivial⟩ fun now => ?_
    refine Prog.always_bind ⟨?_, fun _ _ => trivial⟩ fun result => ?_
    · intro text htext
      simp only [mirrored, mirrorPut, if_true, Option.some.injEq] at htext
      exact ⟨_, htext.symm⟩
    · cases result with
      | some e => trivial
      | none =>
          refine Prog.always_bind ⟨fun _ => nofun, fun _ _ => trivial⟩ fun result => ?_
          cases result with
          | error e => trivial
          | ok _ =>
              exact Prog.always_bind ⟨fun _ => nofun, fun _ _ => trivial⟩ fun _ => trivial
  have hstore : (storeManifest cfg id body).Always (fun _ _ => True)
      (MirrorOf cfg id body.providers) := by
    refine Prog.always_bind ?_ fun updatedAt => ?_
    · unfold manifestTime
      split
      · exact ⟨fun _ => nofun, fun _ _ => trivial⟩
      · trivial
    · refine Prog.always_bind (Site.put_json_always_of (fun _ => nofun) fun _ => nofun)
        fun result => ?_
      cases result with
      | some e => trivial
      | none => exact hattach
  refine Prog.always_bind ?_ fun _ => trivial
  rw [manifestHandler, hreq]
  exact hstore

/-- Where a read of the job's manifest returns one, it is that of the request. -/
def FindsPosted (cfg : Config) (r : Request ManifestIn) (id : String) :
    (c : Site.Op) → c.Response → Prop
  | .key (.manifest k) .getValue, .ok man => k = id → Posted cfg r id man
  | .key (.manifest k) .loadLocal, found => k = id → ∃ man, found = some man ∧ Posted cfg r id man
  | _, _ => True

/-- An announcement that goes on with the manifest of the request puts its providers to the
mirror. -/
theorem republish_mirrors (hreq : manifestRequest cfg r = .ok (id, body)) {man : TaskManifest}
    (hposted : Posted cfg r id man) :
    ((settleManifest id (.ok man) >>= advertise cfg id) >>= fun _ =>
      (pure none : SiteCode (Option Reply))).Always (FindsPosted cfg r id)
      (MirrorOf cfg id body.providers) := by
  have hsettle : settleManifest id (.ok man) = pure man := if_neg hposted.root_ne
  have hproviders : man.providers = body.providers := by
    obtain ⟨body', hreq', hman, -⟩ := hposted
    obtain rfl : body = body' := by
      rw [hreq] at hreq'
      exact (Prod.mk.inj (Except.ok.inj hreq')).2
    rw [hman]
    rfl
  rw [hsettle]
  -- the clock, the advertisement, the mirror, the clock again, and the mark of the manager
  refine ⟨fun _ => nofun, fun now _ => ⟨fun _ => nofun, fun _ _ => ⟨?_, fun _ _ => ?_⟩⟩⟩
  · intro text htext
    simp only [mirrored, mirrorPut, if_true, Option.some.injEq] at htext
    rw [hproviders] at htext
    exact ⟨_, htext.symm⟩
  · exact ⟨fun _ => nofun, fun _ _ => ⟨fun _ => nofun, fun _ _ => trivial⟩⟩

/-- An announcement that finds the manifest of the request puts its providers to the mirror. -/
theorem announce_mirrors (hreq : manifestRequest cfg r = .ok (id, body)) :
    ((Activity.announce id).code cfg).Always (FindsPosted cfg r id)
      (MirrorOf cfg id body.providers) := by
  refine ⟨fun _ => nofun, fun result hresult => ?_⟩
  cases result with
  | ok man => exact republish_mirrors hreq (hresult rfl)
  | error e =>
      refine ⟨fun _ => nofun, fun found hfound => ?_⟩
      obtain ⟨man, rfl, hposted⟩ := hfound rfl
      exact republish_mirrors hreq hposted

end Mirror

/-! ## From the request to the agent -/

/-- What uses the DHT side by side: requests to `manifestHandler` and announcements, agents that
handle a job, and any other code. -/
inductive Party where
  | control (a : Activity)
  | agent (dv : Discoverer) (id : String) (seen : Option Time)
  | other (p : SiteCode Unit)

/-- The code of a party, with what an agent makes of its job. -/
def Party.code (cfg : Config) : Party → SiteCode (Option Handled)
  | control a => do
      let _ ← a.code cfg
      pure none
  | agent dv id seen => do
      let handled ← dv.handleJob id seen
      pure (some handled)
  | other p => do
      p
      pure none

/-- Parties that all are at their start. -/
def parties {τ : Type} (cfg : Config) (kind : τ → Party) (s : Site) :
    Pool τ Site.Op Site.Op.Response Site (Option Handled) :=
  ⟨s, fun i => (kind i).code cfg⟩

section Runs

variable {τ : Type} [DecidableEq τ] {cfg : Config} {kind : τ → Party} {s : Site}
  {r : Request ManifestIn} {id : String} {body : ManifestIn}

/-- The party publishes the manifest of the request: it serves the request, or it is an
announcement of the job that found this manifest. -/
def Publishes (cfg : Config) (kind : τ → Party) (r : Request ManifestIn) (id : String)
    (history : List (τ × Site.Event)) (j : τ) : Prop :=
  kind j = .control (.post r) ∨
    kind j = .control (.announce id) ∧
      ∀ e, (j, e) ∈ history → FindsPosted cfg r id e.call e.response

/-- The step by which the mirror of the job was written last. -/
def lastMirror (id : String) (history : List (τ × Site.Event)) : Option (τ × Site.Event) :=
  (history.filter fun l => writesMirror id l.2).getLast?

/-- Who publishes the manifest of the request puts its providers to the mirror. -/
theorem publishes_mirror {history : List (τ × Site.Event)}
    {p : Pool τ Site.Op Site.Op.Response Site (Option Handled)}
    (hexec : Execution (Pool.Step Site.effect) (parties cfg kind s) history p)
    (hreq : manifestRequest cfg r = .ok (id, body)) {j : τ}
    (hj : Publishes cfg kind r id history j) :
    ∀ e, (j, e) ∈ history → MirrorOf cfg id body.providers e.call := by
  rcases hj with hpost | ⟨hannounce, hfinds⟩
  · have hcode : ((parties cfg kind s).thread j).Always (fun _ _ => True)
        (MirrorOf cfg id body.providers) := by
      show ((kind j).code cfg).Always _ _
      rw [hpost]
      exact Prog.always_bind (post_mirrors hreq) fun _ => trivial
    exact (Pool.always_thread hexec (fun _ _ => trivial) hcode).1
  · have hcode : ((parties cfg kind s).thread j).Always (FindsPosted cfg r id)
        (MirrorOf cfg id body.providers) := by
      show ((kind j).code cfg).Always _ _
      rw [hannounce]
      exact Prog.always_bind (announce_mirrors hreq) fun _ => trivial
    exact (Pool.always_thread hexec hfinds hcode).1

/-- The mirror that was written last is there to read. -/
theorem mirror_of_last {history : List (τ × Site.Event)}
    {p : Pool τ Site.Op Site.Op.Response Site (Option Handled)}
    (hexec : Execution (Pool.Step Site.effect) (parties cfg kind s) history p)
    {l : τ × Site.Event} (hlast : lastMirror id history = some l) :
    p.shared.world.dht (.manifestMirror id) = mirrored id l.2.call := by
  have hwritten := (Pool.shared_execution hexec).last_write (I := fun _ => True)
    (fun s => s.world.dht (.manifestMirror id)) (fun l => writesMirror id l.2)
    (fun l => mirrored id l.2.call) trivial (fun _ _ _ _ _ => trivial)
    (fun _ _ _ _ hstep hwrites => mirror_of_writes hstep hwrites)
    (fun _ _ _ _ hstep hskip => mirror_of_not_writes hstep hskip)
  rcases hwritten with ⟨hnone, -⟩ | ⟨l', hsome, hdht⟩
  · rw [lastMirror, hnone] at hlast
    cases hlast
  · rw [lastMirror, hsome] at hlast
    rw [← Option.some.inj hlast]
    exact hdht

variable {before after : List (τ × Site.Event)}
  {p : Pool τ Site.Op Site.Op.Response Site (Option Handled)} {a : τ} {dv : Discoverer}
  {seen : Option Time} {input : Site.Input} {text : String} {l : τ × Site.Event}
  {handled : Handled}

/-- A read of the mirror returns the text that was written last. -/
theorem mirror_read_of_last
    (hexec : Execution (Pool.Step Site.effect) (parties cfg kind s)
      (before ++ (a, mirrorRead id input text) :: after) p)
    (hlast : lastMirror id before = some l) : mirrored id l.2.call = some text := by
  obtain ⟨q, q', hbefore, hstep, -⟩ := hexec.split_at
  obtain ⟨_, _, hanswer, _⟩ := hstep
  have hread : (if input.dhtFault then none else q.shared.world.dht (.manifestMirror id)) =
      some text := congrArg Prod.fst hanswer
  split at hread
  · cases hread
  · rw [← mirror_of_last hbefore hlast]
    exact hread

/-- An agent that has read a mirror reads its clock next, and ends with an offer of the providers
that its filter keeps, unless the mirror has expired. -/
theorem agent_handles
    (hexec : Execution (Pool.Step Site.effect) (parties cfg kind s)
      (before ++ (a, mirrorRead id input text) :: after) p)
    (hagent : kind a = .agent dv id seen) (hend : p.thread a = .done (some handled))
    {m : ManifestAd} (hm : dv.decodeMirror text = some m) :
    ∃ clock now rest, Pool.own a after = ⟨.base .timeNow, clock, now⟩ :: rest ∧
      handled.offer.map (fun offer => (offer.jobID, offer.providers.getD [])) =
        if m.exp < now then none else some (id, filterProviders m.providers) := by
  have hends := Pool.ends hexec hend
  rw [Pool.own_append, Pool.own_cons_self] at hends
  have hcode : (parties cfg kind s).thread a =
      dv.handleJob id seen >>= fun handled => .done (some handled) := by
    show (kind a).code cfg = _
    rw [hagent]
    rfl
  rw [hcode] at hends
  obtain ⟨handled', hjob, hsame⟩ := hends.of_map
  obtain rfl := Option.some.inj hsame
  obtain ⟨ad, first, hoffer⟩ := handle_job_ends hjob
  exact offer_job_ends hoffer hm

/-- The agent reads back from the JSON text of a mirror with these providers the providers that
were written. -/
def Discoverer.ReadsBack (dv : Discoverer) (cfg : Config) (ps : List Provider) : Prop :=
  ∀ exp, ∃ m, dv.decodeMirror (cfg.mirrorText ps exp) = some m ∧ m.providers = ps

/-- Accepted providers reach the agent. An agent reads the mirror of a job, which was last written
for a request that passed the checks of `manifestHandler`, by the request itself or by an
announcement of its manifest, among any other parties. Then, unless the mirror has expired by the
clock that the agent reads next, it is offered the job with the providers that were posted. On any
list the filter is idempotent, and keeps in order the providers that pass the part of
`validateProvider` that does not decode. -/
theorem providers_reach_agent (hreq : manifestRequest cfg r = .ok (id, body))
    (hjson : dv.ReadsBack cfg body.providers)
    (hexec : Execution (Pool.Step Site.effect) (parties cfg kind s)
      (before ++ (a, mirrorRead id input text) :: after) p)
    (hlast : lastMirror id before = some l) (hpublishes : Publishes cfg kind r id before l.1)
    (hagent : kind a = .agent dv id seen) (hend : p.thread a = .done (some handled)) :
    (∃ m clock now rest, dv.decodeMirror text = some m ∧ m.providers = body.providers ∧
      Pool.own a after = ⟨.base .timeNow, clock, now⟩ :: rest ∧
      handled.offer.map (fun offer => (offer.jobID, offer.providers.getD [])) =
        if m.exp < now then none else some (id, body.providers)) ∧
    ∀ ps, filterProviders (filterProviders ps) = filterProviders ps ∧
      filterProviders ps = ps.filter fun p => validateProvider (undecoded cfg) p = none := by
  refine ⟨?_, fun ps => ⟨filter_providers_idempotent ps, filter_providers_eq cfg ps⟩⟩
  have htext : mirrored id l.2.call = some text := mirror_read_of_last hexec hlast
  have hmem : l ∈ before := (List.mem_filter.mp (List.mem_of_getLast? hlast)).1
  obtain ⟨q, hbefore, -⟩ := hexec.split
  obtain ⟨exp, rfl⟩ := publishes_mirror hbefore hreq hpublishes l.2 hmem text htext
  obtain ⟨m, hm, hproviders⟩ := hjson exp
  obtain ⟨clock, now, rest, hafter, hoffer⟩ := agent_handles hexec hagent hend hm
  rw [hproviders, filter_accepted hreq] at hoffer
  exact ⟨m, clock, now, rest, hm, hproviders, hafter, hoffer⟩

end Runs

namespace Sample

/-- A control server whose mirrors show whether they have the providers of `inputsOf`. -/
def speaker : Config :=
  { Control.Sample.setup with
    mirrorText := fun ps _ =>
      if ps = Control.Sample.inputsOf.providers then "providers" else "no providers" }

/-- An agent that reads its mirrors and advertisements. -/
def listener : Discoverer where
  ns := "mc"
  decodeAd text := some ⟨text, "mc", "", "http://127.0.0.1:8080", 60 * second⟩
  decodeMirror text :=
    if text = "providers" then some ⟨Control.Sample.inputsOf.providers, 120 * second⟩ else none

/-- A manifest is posted, and its job is announced and handled by an agent. -/
def couple : Option Bool → Party
  | none => .control (.post Control.Sample.postManifest)
  | some false => .control (.announce "job")
  | some true => .agent listener "job" none

/-- The announcement, then the request, then the agent. -/
def heard : List (Option Bool × Site.Event) ×
    Pool (Option Bool) Site.Op Site.Op.Response Site (Option Handled) :=
  Pool.schedule Site.effect
    (List.replicate 9 (some false, Control.Sample.still 0) ++
      List.replicate 5 (none, Control.Sample.still 0) ++
      List.replicate 6 (some true, Control.Sample.still 0))
    (parties speaker couple Control.Sample.postedSite)

/-- The steps before the agent reads the mirror. -/
def unheard : List (Option Bool × Site.Event) := heard.1.take 17

theorem listener_reads_back : listener.ReadsBack speaker Control.Sample.inputsOf.providers :=
  fun _ => ⟨⟨Control.Sample.inputsOf.providers, 120 * second⟩, rfl, rfl⟩

end Sample

/-- The request is the last to write the mirror, and the agent is offered its providers. -/
theorem providers_reach_agent_posted :
    ∃ handled, Sample.heard.2.thread (some true) = .done (some handled) ∧
      handled.offer.map (fun offer => (offer.jobID, offer.providers.getD [])) =
        some ("job", Control.Sample.inputsOf.providers) := by
  have hread : Sample.heard.1 = Sample.unheard ++
      (some true, mirrorRead "job" (Control.Sample.still 0) "providers") ::
        Sample.heard.1.drop 18 := rfl
  have hexec : Execution (Pool.Step Site.effect)
      (parties Sample.speaker Sample.couple Control.Sample.postedSite) Sample.heard.1
      Sample.heard.2 := Pool.schedule_execution _ _ _
  rw [hread] at hexec
  have hwriter : (lastMirror "job" Sample.unheard).map Prod.fst = some none := by decide +kernel
  obtain ⟨l, hlast, hl⟩ := Option.map_eq_some_iff.mp hwriter
  have hpublishes : Publishes Sample.speaker Sample.couple Control.Sample.postManifest "job"
      Sample.unheard l.1 := by
    rw [hl]
    exact .inl rfl
  have hreq : manifestRequest Sample.speaker Control.Sample.postManifest =
      .ok ("job", Control.Sample.inputsOf) := rfl
  obtain ⟨⟨m, clock, now, rest, hm, -, hown, hoffer⟩, -⟩ := providers_reach_agent hreq
    Sample.listener_reads_back hexec hlast hpublishes rfl rfl
  -- the agent reads 1 on its clock, long before the mirror expires
  have hclock : Pool.own (some true) (Sample.heard.1.drop 18) =
      [⟨.base .timeNow, Control.Sample.still 0, (1 : Time)⟩,
        ⟨.base .timeNow, Control.Sample.still 0, (1 : Time)⟩] := rfl
  rw [hclock] at hown
  cases hown
  cases hm
  exact ⟨_, rfl, hoffer⟩

end MutualCloud.Agent
