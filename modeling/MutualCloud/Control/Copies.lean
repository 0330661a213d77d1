import MutualCloud.Control.Directory

/-!
# Every copy of a record

`PutValue` of the DHT stores its record at the node of the control server, searches the closest
peers, and sends the record to each of them. The search may fail, and then the record is stored
already; what the peers answer is dropped. Without peers `PutJSON` keeps the record in `localStore`
as well, and returns nil. A get takes the copy of the node before those of the peers, and that of
`localStore` when the network fails.

`Site` has one value of the network under a key, which is all there is to say as long as the DHT
answers. `Node` has each copy of each record, and answers the same steps: what failing puts leave
is said of it. `Node.run_reliable` says that the two do not differ on a reliable DHT.
-/

namespace MutualCloud.Control

open Go KeyedTable Interaction Labelled Store

/-! ## The copies of one record -/

/-- The copies of a record. -/
@[ext] structure Copies (β : Type) where
  /-- Those of the other nodes. -/
  peers : ℕ → Option β
  /-- That of the node of the control server, in its datastore. -/
  own : Option β
  /-- That in `localStore`. -/
  loc : Option β

/-- The input of a step: that of the step on the site, whether a put that fails had stored its
record at the node, the peers that take the record of a put, and the peer whose copy a get takes
when the node has none. -/
structure Node.Input extends onSite : Site.Input where
  stored : Bool := true
  sent : ℕ → Bool := fun _ => true
  peer : ℕ := 0

/-- The put stores its record at the node. The error of a node without peers comes after that. -/
def Node.Input.stores (input : Node.Input) : Bool :=
  !input.dhtFault || input.stored || Dht.noPeer input.netError

namespace Copies

variable {β : Type}

/-- The same in the whole network. -/
def uniform (net loc : Option β) : Copies β := ⟨fun _ => net, net, loc⟩

/-- What a get can see: the copy of the network, and that of `localStore`. -/
def seen (c : Copies β) (input : Node.Input) : Dht.Register β :=
  ⟨c.own.or (c.peers input.peer), c.loc⟩

/-- The copies after `PutValue`. -/
def putValue (c : Copies β) (input : Node.Input) (v : β) : Copies β where
  peers i := if input.dhtFault = false ∧ input.sent i = true then some v else c.peers i
  own := if input.stores then some v else c.own
  loc := c.loc

/-- The copies after `PutJSON`. -/
def putJSON (c : Copies β) (input : Node.Input) (v : β) : Copies β :=
  { c.putValue input v with loc := if input.mode = .alone then some v else c.loc }

/-- The copies after `DelJSON`, where the empty object is `empty`. -/
def delJSON (c : Copies β) (input : Node.Input) (empty : β) : Copies β :=
  { c.putValue input empty with loc := if input.mode = .failed then c.loc else none }

/-- What `GetJSON` finds. -/
def getJSON (c : Copies β) (input : Node.Input) : Option β :=
  if input.dhtFault then c.loc else (c.seen input).net.or c.loc

/-- The value is in some copy. -/
def Has (c : Copies β) (v : β) : Prop := (∃ i, c.peers i = some v) ∨ c.own = some v ∨ c.loc = some v

/-- Each copy that `PutJSON` writes under the input has the value already. -/
structure Holds (c : Copies β) (input : Node.Input) (v : β) : Prop where
  peers : input.dhtFault = false → ∀ i, input.sent i = true → c.peers i = some v
  own : input.stores = true → c.own = some v
  loc : input.mode = .alone → c.loc = some v

/-- The value is in some copy that `PutJSON` does not write under the input. -/
def Spared (c : Copies β) (input : Node.Input) (v : β) : Prop :=
  (∃ i, c.peers i = some v ∧ ¬ (input.dhtFault = false ∧ input.sent i = true)) ∨
    (c.own = some v ∧ input.stores = false) ∨ (c.loc = some v ∧ input.mode ≠ .alone)

/-- A put changes nothing exactly when each copy that it writes has the value already. -/
theorem put_json_eq_iff {c : Copies β} {input : Node.Input} {v : β} :
    c.putJSON input v = c ↔ c.Holds input v := by
  rw [Copies.ext_iff, funext_iff]
  simp only [putJSON, putValue]
  constructor
  · rintro ⟨hpeers, hown, hloc⟩
    refine ⟨fun hfault i hsent => ?_, fun hstores => ?_, fun halone => ?_⟩
    · rw [← hpeers i, if_pos ⟨hfault, hsent⟩]
    · rw [← hown, if_pos hstores]
    · rw [← hloc, if_pos halone]
  · rintro ⟨hpeers, hown, hloc⟩
    refine ⟨fun i => ?_, ?_, ?_⟩
    · split
      next h => exact (hpeers h.1 i h.2).symm
      next => rfl
    · split
      next h => exact (hown h).symm
      next => rfl
    · split
      next h => exact (hloc h).symm
      next => rfl

/-- After a put the copies have its value, or are those that it spares. -/
theorem has_put_json {c : Copies β} {input : Node.Input} {v v' : β}
    (h : (c.putJSON input v).Has v') : v' = v ∨ c.Spared input v' := by
  rcases h with ⟨i, hpeer⟩ | hown | hloc
  · simp only [putJSON, putValue] at hpeer
    split at hpeer
    next => exact .inl (Option.some.inj hpeer).symm
    next hspared => exact .inr (.inl ⟨i, hpeer, hspared⟩)
  · simp only [putJSON, putValue] at hown
    split at hown
    next => exact .inl (Option.some.inj hown).symm
    next hspared => exact .inr (.inr (.inl ⟨hown, by simpa using hspared⟩))
  · simp only [putJSON] at hloc
    split at hloc
    next => exact .inl (Option.some.inj hloc).symm
    next hspared => exact .inr (.inr (.inr ⟨hloc, hspared⟩))

/-- The copies after the process of the control server has ended: its datastore and `localStore` are
in its memory. -/
def forgotten (c : Copies β) : Copies β := { c with own := none, loc := none }

/-- What is left was there. -/
theorem has_of_forgotten {c : Copies β} {v : β} (h : c.forgotten.Has v) : c.Has v := by
  rcases h with hpeer | hown | hloc
  · exact .inl hpeer
  · cases hown
  · cases hloc

/-- How the copies answer a step on their key. -/
def effect : Effect (Dht.Op β) Dht.Op.Response Node.Input (Copies β)
  | .getValue, input, c => ((c.seen input).get input.onKey, c)
  | .putValue v, input, c => (input.onKey.fault, c.putValue input v)
  | .loadLocal, _, c => (c.loc, c)
  | .storeLocal v, _, c => ((), { c with loc := some v })
  | .timeNow, input, c => (input.onKey.now, c)

/-- A step puts a value of its own into a copy, and no other. -/
theorem has_effect {op : Dht.Op β} {input : Node.Input} {c : Copies β} {v : β}
    (h : (effect op input c).2.Has v) : c.Has v ∨ op = .putValue v ∨ op = .storeLocal v := by
  cases op with
  | getValue | loadLocal | timeNow => exact .inl h
  | putValue v' =>
      rcases h with ⟨i, hpeer⟩ | hown | hloc
      · simp only [effect, putValue] at hpeer
        split at hpeer
        · exact .inr (.inl (by rw [Option.some.inj hpeer]))
        · exact .inl (.inl ⟨i, hpeer⟩)
      · simp only [effect, putValue] at hown
        split at hown
        · exact .inr (.inl (by rw [Option.some.inj hown]))
        · exact .inl (.inr (.inl hown))
      · exact .inl (.inr (.inr hloc))
  | storeLocal v' =>
      rcases h with hpeer | hown | hloc
      · exact .inl (.inl hpeer)
      · exact .inl (.inr (.inl hown))
      · exact .inr (.inr (by rw [Option.some.inj hloc]))

end Copies

/-! ## The node -/

/-- The state that the handlers and loops of the control server share, with every copy of the
records in the DHT. -/
structure Node where
  db : DemandJobs
  /-- The copies under a key of the mirror. -/
  mirror : (k : DhtKey) → Copies k.Value
  /-- `AnnounceManager.dirty`. -/
  dirty : List String
  /-- `AnnounceManager.trigger`. -/
  trigger : Bool
  /-- The copies under a key of the directory. -/
  keys : (k : DirKey) → Copies k.Value
  /-- `AnnounceManager.last`. -/
  last : String → Option Time

/-- The site, with the same copy of a record in the whole network. -/
def Site.node (s : Site) : Node where
  db := s.world.db
  mirror k := .uniform (s.world.dht k) none
  dirty := s.world.dirty
  trigger := s.world.trigger
  keys k := .uniform (s.keys k).net (s.keys k).loc
  last := s.last

namespace Node

/-- The control server before anything happened. -/
def empty : Node := Site.empty.node

/-- The node with other copies under a key of the mirror. -/
def setMirror (n : Node) (k : DhtKey) (c : Copies k.Value) : Node :=
  { n with mirror := Function.update n.mirror k c }

/-- The node with other copies under a key of the directory. -/
def setKey (n : Node) (k : DirKey) (c : Copies k.Value) : Node :=
  { n with keys := Function.update n.keys k c }

/-- What a new process of the control server finds. -/
def restarted (n : Node) : Node where
  db := n.db
  mirror k := (n.mirror k).forgotten
  dirty := []
  trigger := false
  keys k := (n.keys k).forgotten
  last _ := none

/-- How the node and its surroundings answer a step of the control server. -/
def effect : Effect Site.Op Site.Op.Response Input Node
  | .base (.sql s), input, n =>
      let answer := Store.effect s input.toInput n.db
      (answer.1, { n with db := answer.2 })
  | .base (.getJSON k), input, n => ((n.mirror k).getJSON input, n)
  | .base (.putJSON k v), input, n => ((), n.setMirror k ((n.mirror k).putJSON input v))
  | .base (.delJSON k), input, n => ((), n.setMirror k ((n.mirror k).delJSON input k.tombstone))
  | .base .timeNow, input, n => (input.now, n)
  | .base (.enqueue id), _, n => ((), { n with dirty := n.dirty.insert id, trigger := true })
  | .key k op, input, n =>
      let answer := Copies.effect op input (n.keys k)
      (answer.1, n.setKey k answer.2)
  | .putJSON k v, input, n => (input.putError, n.setMirror k ((n.mirror k).putJSON input v))
  | .intn m, input, n => (input.rand % m, n)
  | .listQueued, input, n =>
      match input.fault with
      | some e => (.error e, n)
      | none => (.ok (Site.queuedJobs n.db), n)
  | .announced id now, _, n => ((), { n with last := Function.update n.last id (some now) })

/-! ## A reliable DHT -/

/-- The DHT answers, and all peers take what is put. -/
def Reliable (input : Input) : Prop := input.dhtFault = false ∧ ∀ i, input.sent i = true

section Reliable

variable {β : Type} {input : Input}

/-- A put that all take leaves the same in the whole network. -/
theorem put_value_uniform (h : Reliable input) (net loc : Option β) (v : β) :
    (Copies.uniform net loc).putValue input v = .uniform (some v) loc := by
  simp [Copies.putValue, Copies.uniform, Input.stores, h.1, h.2]

/-- The DHT does not fail. -/
theorem Reliable.mode (h : Reliable input) : input.mode = .reached := by
  rcases input.mode_cases with ⟨-, hmode⟩ | ⟨hfault, -⟩ | ⟨hfault, -⟩
  · exact hmode
  all_goals
    rw [input.onSite.onKey_reliable h.1] at hfault
    cases hfault

/-- A put of `PutJSON` that all take. -/
theorem put_json_uniform (h : Reliable input) (net loc : Option β) (v : β) :
    (Copies.uniform net loc).putJSON input v = .uniform (some v) loc := by
  rw [Copies.putJSON, put_value_uniform h, h.mode]
  rfl

/-- A delete that all take. -/
theorem del_json_uniform (h : Reliable input) (net : Option β) (empty : β) :
    (Copies.uniform net none).delJSON input empty = .uniform (some empty) none := by
  rw [Copies.delJSON, put_value_uniform h, h.mode]
  rfl

/-- A get that the DHT answers. -/
theorem get_json_uniform (h : Reliable input) (net : Option β) :
    (Copies.uniform net none).getJSON input = net := by
  simp [Copies.getJSON, Copies.seen, Copies.uniform, h.1]

/-- A step on a key does to copies that are the same in the whole network what it does to the one
value of the network. -/
theorem key_uniform (h : Reliable input) (op : Dht.Op β) (r : Dht.Register β) :
    Copies.effect op input (.uniform r.net r.loc) =
      ((Dht.effect op input.onKey r).1,
        .uniform (Dht.effect op input.onKey r).2.net (Dht.effect op input.onKey r).2.loc) := by
  have hseen : (Copies.uniform r.net r.loc).seen input = r := by
    simp [Copies.seen, Copies.uniform]
  have hfault := input.onSite.onKey_reliable h.1
  cases op with
  | getValue => simp only [Copies.effect, Dht.effect, hseen]
  | putValue v =>
      simp only [Copies.effect, Dht.effect, hfault]
      exact congrArg _ (put_value_uniform h r.net r.loc v)
  | loadLocal | storeLocal | timeNow => rfl

end Reliable

/-- Other copies of a record of the mirror, when they are the same in the whole network. -/
theorem set_mirror_node (s : Site) (k : DhtKey) (v : k.Value) :
    s.node.setMirror k (.uniform (some v) none) =
      Site.node { s with world := s.world.write k v } := by
  have hmirror : ∀ k', Function.update s.node.mirror k (.uniform (some v) none) k' =
      .uniform ((s.world.write k v).dht k') none := by
    intro k'
    exact (Function.apply_update (fun k' net => Copies.uniform (β := k'.Value) net none)
      s.world.dht k (some v) k').symm
  unfold setMirror
  rw [funext hmirror]
  rfl

/-- Other copies of a record of the directory, when they are the same in the whole network. -/
theorem set_key_node (s : Site) (k : DirKey) (r : Dht.Register k.Value) :
    s.node.setKey k (.uniform r.net r.loc) =
      Site.node { s with keys := Function.update s.keys k r } := by
  have hkeys : ∀ k', Function.update s.node.keys k (.uniform r.net r.loc) k' =
      .uniform (Function.update s.keys k r k').net (Function.update s.keys k r k').loc := by
    intro k'
    exact (Function.apply_update (fun k' (r : Dht.Register k'.Value) => Copies.uniform r.net r.loc)
      s.keys k r k').symm
  unfold setKey
  rw [funext hkeys]
  rfl

/-- On a reliable DHT a step does to the node what it does to the site. -/
theorem step_reliable (c : Site.Op) (input : Input) (s : Site) (h : Reliable input) :
    effect c input s.node =
      ((Site.effect c input.onSite s).1, (Site.effect c input.onSite s).2.node) := by
  have hfault : input.dhtFault = false := h.1
  cases c with
  | base c =>
      cases c with
      | sql | timeNow | enqueue => rfl
      | getJSON k =>
          simp only [effect, Site.effect, Control.effect, hfault]
          exact congrArg (·, s.node) (get_json_uniform h _)
      | putJSON k v =>
          simp only [effect, Site.effect, Control.effect, hfault]
          exact congrArg _
            ((congrArg _ (put_json_uniform h _ none v)).trans (set_mirror_node s k v))
      | delJSON k =>
          simp only [effect, Site.effect, Control.effect, hfault]
          exact congrArg _ ((congrArg _ (del_json_uniform h _ _)).trans (set_mirror_node s k _))
  | key k op =>
      have hkeys : s.node.keys k = .uniform (s.keys k).net (s.keys k).loc := rfl
      simp only [effect, Site.effect]
      rw [hkeys, key_uniform h op (s.keys k), set_key_node]
  | putJSON k v =>
      have herror : input.putError = none := by simp [Site.Input.putError, h.mode]
      simp only [effect, Site.effect, hfault, herror]
      exact congrArg _ ((congrArg _ (put_json_uniform h _ none v)).trans (set_mirror_node s k v))
  | listQueued =>
      simp only [effect, Site.effect]
      cases input.fault <;> rfl
  | intn | announced => rfl

/-- On a reliable DHT code of the control server returns on the node what it returns on the site,
and leaves the same. -/
theorem run_reliable {α : Type} (p : SiteCode α) {inputs : ℕ → Input}
    (h : ∀ n, Reliable (inputs n)) (s : Site) :
    (p.run effect inputs s.node).value =
        (p.run Site.effect (fun n => (inputs n).onSite) s).value ∧
      (p.run effect inputs s.node).state =
        (p.run Site.effect (fun n => (inputs n).onSite) s).state.node :=
  Prog.run_of_steps Site.node Input.onSite step_reliable p h s

/-! ## A put under any input -/

/-- A put that does not go to `localStore` is that of `PutValue`. -/
theorem put_json_of_ne {β : Type} {i : Input} (h : i.mode ≠ .alone) (c : Copies β) (v : β) :
    c.putJSON i v = c.putValue i v := by
  rw [Copies.putJSON, if_neg h]
  rfl

/-- What `PutJSON` returns, what it leaves under its key, and how many steps it makes. -/
theorem put_json_run (k : DirKey) (v : k.Value) (inputs : ℕ → Input) (n : Node) :
    let run := (Site.putJSON k v).run effect inputs n
    run.value = (inputs 0).putError ∧
      run.state = n.setKey k ((n.keys k).putJSON (inputs 0) v) ∧
      run.events.length = if (inputs 0).mode = .alone then 2 else 1 := by
  rcases (inputs 0).mode_cases with ⟨hfault, hmode⟩ | ⟨hfault, hpeer, hmode⟩ |
    ⟨hfault, hpeer, hmode⟩
  · have hput := put_json_of_ne (i := inputs 0) (by simp [hmode]) (n.keys k) v
    simp [Site.putJSON, Dht.putJSON, Dht.keepLocal, Site.keyAccess, Prog.run, Prog.perform, effect,
      Copies.effect, Site.Input.putError, hfault, hmode, hput]
  · simp [Site.putJSON, Dht.putJSON, Dht.keepLocal, Site.keyAccess, Prog.run, Prog.perform, effect,
      Copies.effect, Site.Input.putError, setKey, Copies.putJSON, hfault, hmode, hpeer]
  · have hput := put_json_of_ne (i := inputs 0) (by simp [hmode]) (n.keys k) v
    simp [Site.putJSON, Dht.putJSON, Dht.keepLocal, Site.keyAccess, Prog.run, Prog.perform, effect,
      Copies.effect, Site.Input.putError, hfault, hmode, hpeer, hput]

end Node

/-- Nothing fails, and every peer takes what is put. -/
def Sample.allTake (_ : ℕ) : Node.Input := { now := 1 }

end MutualCloud.Control
