import Mathlib.Data.List.Sort
import MutualCloud.Control.Handlers
import MutualCloud.Dht.Callbacks
import MutualCloud.Dht.Json
import MutualCloud.Library.Postcondition

/-!
# The directory that agents read

Besides the mirror of a job, the control server keeps in the DHT what an agent needs to find a
task and to run it: its metadata, its manifest, and the index of its namespace. `Site` is the
`World` of the handlers together with these records, each under a key with its network value and
its value in `localStore`, and with the times of the last announcements. The steps on one key are
those of `PutJSONCAS`; `GetJSON` and `PutJSON` are the two shortest programs over them. A put that
fails changes nothing here; `Control.Copies` has the copies that it may leave.

The `ensures` lemmas say what a step of each kind does on a reliable DHT.
-/

namespace MutualCloud.Control

open Go KeyedTable Interaction Labelled Store

/-! ## Records -/

/-- `task.Provider`. -/
structure Provider where
  peerID : String
  addrs : List String
  relays : List String
  caps : List String
  deriving DecidableEq, Repr

/-- `task.TaskMeta`, without the fields that the control server leaves out. -/
structure TaskMeta where
  id : String
  createdAt : Time
  image : String
  command : Strings
  deriving DecidableEq, Repr

/-- `task.Manifest`. -/
structure TaskManifest where
  rootCID : String
  providers : List Provider
  encMeta : String
  rendezvous : String
  transports : List String
  version : Int
  updatedAt : Time
  deriving DecidableEq, Repr

/-- The keys of the directory. -/
inductive DirKey where
  /-- `KeyMeta(id)`. -/
  | taskMeta (id : String)
  /-- `KeyManifest(id)`. -/
  | manifest (id : String)
  /-- `KeyIndex(ns)`. -/
  | index (ns : String)
  /-- `KeyIndexShard(ns, shard)`. -/
  | indexShard (ns : String) (shard : ℕ)
  deriving DecidableEq

/-- The record under a key. -/
abbrev DirKey.Value : DirKey → Type
  | taskMeta _ => TaskMeta
  | manifest _ => TaskManifest
  | index _ | indexShard _ _ => Dht.TaskIndex

/-- The state that the handlers and loops of the control server share. -/
structure Site where
  world : World
  /-- What the DHT and `localStore` have under a key. -/
  keys : (k : DirKey) → Dht.Register k.Value
  /-- `AnnounceManager.last`. -/
  last : String → Option Time

namespace Site

/-- The control server before anything happened. -/
def empty : Site := ⟨⟨∅, fun _ => none, [], false⟩, fun _ => ⟨none, none⟩, fun _ => none⟩

/-- The record that a get finds under a key: that of the network, else that of `localStore`. -/
def found (s : Site) (k : DirKey) : Option k.Value := (s.keys k).net.or (s.keys k).loc

/-- Write a record to the network. -/
def write (s : Site) (k : DirKey) (v : k.Value) : Site :=
  { s with keys := Function.update s.keys k { s.keys k with net := some v } }

@[simp] theorem found_write_self (s : Site) (k : DirKey) (v : k.Value) :
    (s.write k v).found k = some v := by
  simp [found, write]

theorem found_write_of_ne {k k' : DirKey} (h : k' ≠ k) (s : Site) (v : k.Value) :
    (s.write k v).found k' = s.found k' := by
  simp [found, write, Function.update_of_ne h]

/-! ## Steps -/

/-- The atomic steps of the control server on its whole state. -/
inductive Op where
  /-- A step of the handlers on the world. -/
  | base (c : Call)
  /-- A step on a key of the directory. -/
  | key (k : DirKey) (op : Dht.Op k.Value)
  /-- `PutJSON` to a key of the mirror, for a caller that looks at the error. -/
  | putJSON (k : DhtKey) (v : k.Value)
  /-- `mrand.Intn(n)`. -/
  | intn (n : ℕ)
  /-- The query of `ListQueued`. -/
  | listQueued
  /-- The assignment to `AnnounceManager.last`. -/
  | announced (id : String) (now : Time)

/-- What a step returns. -/
abbrev Op.Response : Op → Type
  | base c => c.Response
  | key _ op => op.Response
  | putJSON _ _ => Option String
  | intn _ => ℕ
  | listQueued => Except SqlError (List DBJob)
  | announced _ _ => Unit

/-- The input of a step: that of a step on the world, the error of a get or put that fails, and
the source of random numbers. -/
structure Input extends onWorld : Control.Input where
  netError : String := "context deadline exceeded"
  rand : ℕ := 0

/-- The input of a step on a key. -/
def Input.onKey (input : Input) : Dht.Input where
  now := input.now.toNat
  fault := if input.dhtFault then some input.netError else none

/-- The rows that `ListQueued` returns, oldest first. It does not select `retry_count`. -/
def queuedJobs (db : DemandJobs) : List DBJob :=
  ((db.entries.filter fun entry => entry.2.status = .queued).map fun entry =>
    { Stmt.selectJob entry.1 entry.2 with retryCount := 0 }).insertionSort
      fun a b => a.createdAt ≤ b.createdAt

/-- How the control server's surroundings answer a step. -/
def effect : Effect Op Op.Response Input Site
  | .base c, input, s =>
      let answer := Control.effect c input.onWorld s.world
      (answer.1, { s with world := answer.2 })
  | .key k op, input, s =>
      let answer := Dht.effect op input.onKey (s.keys k)
      (answer.1, { s with keys := Function.update s.keys k answer.2 })
  | .putJSON k v, input, s =>
      if input.dhtFault then (if Dht.noPeer input.netError then none else some input.netError, s)
      else (none, { s with world.dht := Function.update s.world.dht k (some v) })
  | .intn n, input, s => (input.rand % n, s)
  | .listQueued, input, s =>
      match input.fault with
      | some e => (.error e, s)
      | none => (.ok (queuedJobs s.world.db), s)
  | .announced id now, _, s => ((), { s with last := Function.update s.last id (some now) })

end Site

/-- Code of the control server over the steps on its whole state. -/
abbrev SiteCode := Prog Site.Op Site.Op.Response

namespace Site

/-- Code that acts on the world only. -/
def lift {α : Type} (p : Code α) : SiteCode α := p.embed Op.base fun _ r => r

/-- The access to a key of the directory. -/
def keyAccess (k : DirKey) : Dht.KeyAccess Op Op.Response k.Value where
  getValue := Prog.perform (Op.key k .getValue)
  putValue v := Prog.perform (Op.key k (.putValue v))
  loadLocal := Prog.perform (Op.key k .loadLocal)
  storeLocal v := Prog.perform (Op.key k (.storeLocal v))
  timeNow := Prog.perform (Op.key k .timeNow)

/-- `d.GetJSON(k, &v, timeout)`. -/
def getJSON (k : DirKey) : SiteCode (Except String k.Value) := Dht.getJSON (keyAccess k)

/-- `d.PutJSON(k, v)`, with its error. -/
def putJSON (k : DirKey) (v : k.Value) : SiteCode (Option String) := Dht.putJSON (keyAccess k) v

/-- `d.PutJSONCAS(k, check)`. -/
def putJSONCAS (k : DirKey) [DecidableEq k.Value] (check : Dht.Check k.Value) :
    SiteCode (Except Dht.Err Unit) :=
  (Dht.putJSONCAS Dht.register check).embed (Op.key k) fun _ r => r

/-- `d.PutJSON(k, v)` to a key of the mirror, with its error. -/
def putMirror (k : DhtKey) (v : k.Value) : SiteCode (Option String) :=
  Prog.perform (Op.putJSON k v)

/-- `mrand.Intn(n)`. -/
def intn (n : ℕ) : SiteCode ℕ := Prog.perform (Op.intn n)

/-- `store.ListQueued(ctx)`. -/
def listQueued : SiteCode (Except SqlError (List DBJob)) := Prog.perform Op.listQueued

/-! ## The steps of the programs -/

/-- The steps of `GetJSON`. -/
theorem get_json_always_of {P : Op → Prop} {k : DirKey} (hget : P (.key k .getValue))
    (hload : P (.key k .loadLocal)) : (getJSON k).Always (fun _ _ => True) P := by
  refine ⟨hget, fun result _ => ?_⟩
  cases result with
  | ok v => trivial
  | error e =>
      refine ⟨hload, fun result _ => ?_⟩
      cases result <;> trivial

/-- The steps of `PutJSON` after the put. -/
theorem keep_local_always_of {P : Op → Prop} {k : DirKey} {v : k.Value}
    (hstore : P (.key k (.storeLocal v))) (result : Option String) :
    (Dht.keepLocal (keyAccess k) v result).Always (fun _ _ => True) P := by
  cases result with
  | none => trivial
  | some e =>
      rw [Dht.keepLocal]
      split
      · exact ⟨hstore, fun _ _ => trivial⟩
      · trivial

/-- The steps of `PutJSON`. -/
theorem put_json_always_of {P : Op → Prop} {k : DirKey} {v : k.Value}
    (hput : P (.key k (.putValue v))) (hstore : P (.key k (.storeLocal v))) :
    (putJSON k v).Always (fun _ _ => True) P :=
  ⟨hput, fun result _ => keep_local_always_of hstore result⟩

/-! ## A put under any input -/

/-- How a put goes under the input. -/
def Input.mode (input : Input) : Dht.Mode := input.onKey.mode

/-- The error of a put under the input. -/
def Input.putError (input : Input) : Option String :=
  if input.mode = .failed then some input.netError else none

/-- The three modes of a put, by its input. -/
theorem Input.mode_cases (input : Input) :
    (input.onKey.fault = none ∧ input.mode = .reached) ∨
    (input.onKey.fault = some input.netError ∧ Dht.noPeer input.netError = true ∧
      input.mode = .alone) ∨
    (input.onKey.fault = some input.netError ∧ ¬ Dht.noPeer input.netError = true ∧
      input.mode = .failed) := by
  have herror : ∀ e, input.onKey.fault = some e → e = input.netError := by
    intro e he
    unfold Input.onKey at he
    grind
  rcases input.onKey.mode_cases with h | ⟨e, hfault, h⟩ | ⟨e, hfault, h⟩
  · exact .inl h
  · obtain rfl := herror e hfault
    exact .inr (.inl ⟨hfault, h⟩)
  · obtain rfl := herror e hfault
    exact .inr (.inr ⟨hfault, h⟩)

/-! ## Steps on a reliable DHT -/

/-- The DHT answers. -/
def Reliable (input : Input) : Prop := input.dhtFault = false

/-- A reliable DHT answers the steps on its keys. -/
theorem Input.onKey_reliable (input : Input) (h : Reliable input) : input.onKey.fault = none := by
  show (if input.dhtFault = true then some input.netError else none) = none
  rw [h]
  rfl

/-- The world of the handlers is a part of the site. -/
def worldPart : Lens Site World where
  view := world
  put s w := { s with world := w }
  view_put _ _ := rfl
  put_view _ := rfl
  put_put _ _ _ := rfl

/-- A key is a part of the site. -/
def keyPart (k : DirKey) : Lens Site (Dht.Register k.Value) where
  view s := s.keys k
  put s r := { s with keys := Function.update s.keys k r }
  view_put s r := by simp
  put_view s := by simp
  put_put s r r' := by simp

variable {α : Type} {s : Site}

/-- Code on the world changes nothing else. -/
theorem ensures_lift {p : Code α} {Q : α → Site → Prop}
    (h : p.Ensures Control.effect Control.Reliable s.world fun a w => Q a { s with world := w }) :
    (lift p).Ensures effect Reliable s Q :=
  Prog.ensures_embed worldPart Input.onWorld (fun _ hinput => hinput) (fun _ _ _ => rfl)
    (fun _ _ _ => rfl) h

/-- Code on the world makes its calls on the world. -/
theorem through_lift {P : World → Call → Prop} {P' : Site → Op → Prop} {p : Code α}
    {Q : α → Site → Prop} (hstep : ∀ c s, P s.world c → P' s (.base c))
    (h : p.Through Control.effect Control.Reliable P s.world fun a w => Q a { s with world := w }) :
    (lift p).Through effect Reliable P' s Q :=
  Prog.through_embed worldPart Input.onWorld (fun _ hinput => hinput) (fun _ _ _ => rfl)
    (fun _ _ _ => rfl) hstep h

/-- Code on the world runs as it does there. -/
theorem lift_run_state (p : Code α) (inputs : ℕ → Input) (s : Site) :
    ((lift p).run effect inputs s).state =
      { s with world := (p.run Control.effect (fun n => (inputs n).onWorld) s.world).state } :=
  Prog.run_embed_state worldPart Input.onWorld (fun _ _ _ => rfl) (fun _ _ _ => rfl) p inputs s

/-- Reading the clock changes nothing. -/
theorem ensures_lift_time_now : (lift timeNow).Ensures effect Reliable s fun _ s' => s' = s :=
  fun _ _ => rfl

/-- A get finds the record under the key, or fails. -/
theorem ensures_get_json (k : DirKey) :
    (getJSON k).Ensures effect Reliable s fun result s' =>
      s' = s ∧ (∀ v, result = .ok v ↔ s.found k = some v) := by
  have hkeep : ({ s with keys := Function.update s.keys k (s.keys k) } : Site) = s := by simp
  intro input hinput
  have hget : (effect (.key k .getValue) input s).1 = (s.keys k).get input.onKey := rfl
  have hsame : (effect (.key k .getValue) input s).2 = s := hkeep
  rw [hget, hsame]
  unfold Dht.Register.get found
  rw [input.onKey_reliable hinput]
  cases hnet : (s.keys k).net with
  | some v => exact ⟨rfl, fun v' => by simp⟩
  | none =>
      intro input' _
      have hload : (effect (.key k .loadLocal) input' s).1 = (s.keys k).loc := rfl
      have hsame' : (effect (.key k .loadLocal) input' s).2 = s := hkeep
      rw [hload, hsame']
      cases hloc : (s.keys k).loc with
      | some v => exact ⟨rfl, fun v' => by simp⟩
      | none => exact ⟨rfl, fun v' => by simp⟩

/-- A put writes its record. -/
theorem ensures_put_json (k : DirKey) (v : k.Value) :
    (putJSON k v).Ensures effect Reliable s fun result s' => result = none ∧ s' = s.write k v := by
  intro input hinput
  have hanswer : effect (.key k (.putValue v)) input s = (none, s.write k v) := by
    simp [effect, Dht.effect, input.onKey_reliable hinput, write]
  rw [hanswer]
  exact ⟨rfl, rfl⟩

/-- A put to the mirror writes its record. -/
theorem ensures_put_mirror (k : DhtKey) (v : k.Value) :
    (putMirror k v).Ensures effect Reliable s fun result s' =>
      result = none ∧ s' = { s with world := s.world.write k v } := by
  intro input hinput
  have hanswer : effect (.putJSON k v) input s =
      (none, { s with world := s.world.write k v }) := by
    simp only [effect]
    rw [hinput]
    rfl
  rw [hanswer]
  exact ⟨rfl, rfl⟩

/-- A callback that accepts every value is answered at the first try, and no other key changes. -/
theorem ensures_put_json_cas (k : DirKey) [DecidableEq k.Value] {check : Dht.Check k.Value}
    (haccept : ∀ now prev, ∃ next, check now prev = .accept next) :
    (putJSONCAS k check).Ensures effect Reliable s fun result s' =>
      result = .ok () ∧ s'.world = s.world ∧ ∀ k', k' ≠ k → s'.found k' = s.found k' := by
  refine Prog.ensures_embed (keyPart k) Input.onKey (fun input => input.onKey_reliable)
    (fun _ _ _ => rfl) (fun _ _ _ => rfl) ((Dht.ensures_put_json_cas haccept).mono ?_)
  intro result r hresult
  refine ⟨hresult, rfl, fun k' hk' => ?_⟩
  simp [keyPart, found, Function.update_of_ne hk']

/-- A random number is in its range. -/
theorem ensures_intn (n : ℕ) :
    (intn n).Ensures effect Reliable s fun k s' => s' = s ∧ (0 < n → k < n) :=
  fun input _ => ⟨rfl, Nat.mod_lt input.rand⟩

/-- A job is listed exactly when its row is queued. -/
theorem mem_queued_jobs {db : DemandJobs} {job : DBJob} :
    job ∈ queuedJobs db ↔ ∃ row, db.lookup job.id = some row ∧ row.status = .queued ∧
      job = { Stmt.selectJob job.id row with retryCount := 0 } := by
  unfold queuedJobs
  rw [List.mem_insertionSort, List.mem_map]
  constructor
  · rintro ⟨⟨id, row⟩, hentry, rfl⟩
    obtain ⟨hmem, hstatus⟩ := List.mem_filter.mp hentry
    exact ⟨row, AList.mem_lookup_iff.mpr hmem, of_decide_eq_true hstatus, rfl⟩
  · rintro ⟨row, hrow, hstatus, hjob⟩
    refine ⟨⟨job.id, row⟩, List.mem_filter.mpr ⟨?_, decide_eq_true hstatus⟩, hjob.symm⟩
    exact AList.mem_lookup_iff.mp hrow

end Site

end MutualCloud.Control
