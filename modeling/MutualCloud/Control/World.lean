import MutualCloud.Library.Sequence
import MutualCloud.Store.PGStore
import MutualCloud.Store.Runs

/-!
# The world of the control server

The control server keeps the authoritative rows in the database and mirrors them to a DHT under
the keys of `internal/task/types.go`. `Call` lists what the handlers of `cmd/control` do to the
two and to the announce manager, each one an atomic step. A DHT operation may fail: then a get
returns nothing, which every handler takes for the zero value, and a put or a delete changes
nothing.
-/

namespace MutualCloud.Control

open Go Interaction Labelled Store

/-- `task.TaskStatus`, which has the five constants of `lease.JobStatus`. -/
abbrev TaskStatus := JobStatus

/-- `task.TaskState`, without the fields that the handlers only carry along. -/
structure TaskState where
  id : String
  status : TaskStatus
  version : Int
  updatedAt : Time
  assignedTo : String
  startedAt : Option Time
  finishedAt : Option Time
  deriving DecidableEq, Repr

/-- `task.Lease`. -/
structure TaskLease where
  owner : String
  nonce : String
  expires : Time
  version : Int
  deriving DecidableEq, Repr

/-- Go's zero value. -/
instance : Inhabited TaskState := ⟨⟨"", .other "", 0, 0, "", none, none⟩⟩

/-- Go's zero value. -/
instance : Inhabited TaskLease := ⟨⟨"", "", 0, 0⟩⟩

@[simp] theorem default_owner : (default : TaskLease).owner = "" := rfl

/-- The DHT keys that the handlers touch. -/
inductive DhtKey where
  | state (id : String)
  | lease (id : String)
  | taskAd (ns id : String)
  | manifestMirror (id : String)
  deriving DecidableEq

namespace DhtKey

/-- The record under a key. The handlers do not decode the last two, which stay JSON texts. -/
abbrev Value : DhtKey → Type
  | state _ => TaskState
  | lease _ => TaskLease
  | taskAd _ _ | manifestMirror _ => String

/-- What `DelJSON` leaves under a key: an empty object, which decodes to the zero value. -/
def tombstone : (k : DhtKey) → k.Value
  | state _ => (default : TaskState)
  | lease _ => (default : TaskLease)
  | taskAd _ _ | manifestMirror _ => "\x7b\x7d"

end DhtKey

/-- The records of the DHT. -/
abbrev Dht := (k : DhtKey) → Option k.Value

/-- The state that the executions of handlers share. -/
structure World where
  db : DemandJobs
  dht : Dht
  /-- `AnnounceManager.dirty`. -/
  dirty : List String
  /-- Whether a wake-up waits in `AnnounceManager.trigger`, which has room for one. -/
  trigger : Bool

namespace World

/-- Write a record to the DHT. -/
def write (w : World) (k : DhtKey) (v : k.Value) : World :=
  { w with dht := Function.update w.dht k (some v) }

@[simp] theorem write_dht_self (w : World) (k : DhtKey) (v : k.Value) :
    (w.write k v).dht k = some v := by
  simp [write]

theorem write_dht_of_ne {k k' : DhtKey} (h : k' ≠ k) (w : World) (v : k.Value) :
    (w.write k v).dht k' = w.dht k' := by
  simp [write, Function.update_of_ne h]

end World

/-- The atomic steps of the handlers. -/
inductive Call where
  | sql (s : Stmt)
  | getJSON (k : DhtKey)
  | putJSON (k : DhtKey) (v : k.Value)
  | delJSON (k : DhtKey)
  | timeNow
  | enqueue (id : String)

/-- What a step returns. The handlers drop the errors of the DHT. -/
abbrev Call.Response : Call → Type
  | sql s => s.Response
  | getJSON k => Option k.Value
  | putJSON _ _ | delJSON _ | enqueue _ => Unit
  | timeNow => Time

/-- The input of a step: that of a statement, and whether the DHT fails. -/
structure Input extends Store.Input where
  dhtFault : Bool := false

/-- How the world answers a step. -/
def effect : Effect Call Call.Response Input World
  | .sql s, input, w =>
      let answer := Store.effect s input.toInput w.db
      (answer.1, { w with db := answer.2 })
  | .getJSON k, input, w => (if input.dhtFault then none else w.dht k, w)
  | .putJSON k v, input, w =>
      ((), if input.dhtFault then w else { w with dht := Function.update w.dht k (some v) })
  | .delJSON k, input, w =>
      ((), if input.dhtFault then w
        else { w with dht := Function.update w.dht k (some k.tombstone) })
  | .timeNow, input, w => (input.now, w)
  | .enqueue id, _, w => ((), { w with dirty := w.dirty.insert id, trigger := true })

/-- A statement acts on the database only. -/
theorem effect_sql {s : Stmt} {input : Input} {w : World} {response : s.Response}
    {db : DemandJobs} (h : Store.effect s input.toInput w.db = (response, db)) :
    effect (.sql s) input w = (response, { w with db := db }) := by
  simp only [effect, h]

/-- A step acts on the database by one statement, or not at all. -/
theorem effect_db (c : Call) (input : Input) (w : World) :
    (effect c input w).2.db = w.db ∨ ∃ e, Store.Step w.db e (effect c input w).2.db := by
  cases c with
  | sql s => exact .inr ⟨_, effect_step s input.toInput w.db⟩
  | putJSON | delJSON =>
      unfold effect
      dsimp only
      split <;> exact .inl rfl
  | getJSON | timeNow | enqueue => exact .inl rfl

/-- Code of the control server: a program over the steps. -/
abbrev Code := Prog Call Call.Response

/-- Whatever the control server runs, its database stays one that the store can reach. -/
theorem run_reachable {α : Type} (p : Code α) (inputs : ℕ → Input) {w : World}
    (h : Reachable w.db) : Reachable (p.run effect inputs w).state.db := by
  refine (Prog.run_execution effect p inputs w).invariant (I := fun w => Reachable w.db) h ?_
  rintro w ⟨c, input, response⟩ w' hreach hstep
  have hw' : (effect c input w).2 = w' := congrArg Prod.snd hstep
  subst hw'
  exact hreach.of_step (effect_db c input w)

/-- A call of the store. -/
def store {α : Type} (m : PGStore.Method α) : Code α :=
  m.embed Call.sql fun _ r => r

/-- A call of the store returns in the world what it returns on the database. -/
theorem store_run_value {α : Type} (m : PGStore.Method α) (inputs : ℕ → Input) (w : World) :
    ((store m).run effect inputs w).value =
      (m.run Store.effect (fun n => (inputs n).toInput) w.db).value :=
  Prog.run_embed_value World.db Input.toInput (fun _ _ _ => rfl) (fun _ _ _ => rfl) m inputs w

/-- A call of the store leaves the DHT alone. -/
theorem store_run_dht {α : Type} (m : PGStore.Method α) (inputs : ℕ → Input) (w : World) :
    ((store m).run effect inputs w).state.dht = w.dht := by
  unfold store
  induction m generalizing inputs w with
  | done a => rfl
  | call s k ih => exact ih _ _ _

/-- `d.GetJSON(k, &v, timeout)` into a zero value, with the error dropped. -/
def getJSON (k : DhtKey) : Code k.Value := do
  let v ← Prog.perform (Call.getJSON k)
  pure (v.getD k.tombstone)

/-- `d.PutJSON(k, v)`. -/
def putJSON (k : DhtKey) (v : k.Value) : Code Unit :=
  Prog.perform (Call.putJSON k v)

/-- `d.DelJSON(k)`. -/
def delJSON (k : DhtKey) : Code Unit :=
  Prog.perform (Call.delJSON k)

/-- `time.Now().UTC()`. -/
def timeNow : Code Time :=
  Prog.perform Call.timeNow

/-- `mgr.Enqueue(id)`. -/
def enqueue (id : String) : Code Unit :=
  Prog.perform (Call.enqueue id)

/-! ## Steps on a reliable DHT -/

/-- The DHT answers. -/
def Reliable (input : Input) : Prop := input.dhtFault = false

/-- The database is a part of the world. -/
def dbPart : Lens World DemandJobs where
  view := World.db
  put w db := { w with db := db }
  view_put _ _ := rfl
  put_view _ := rfl
  put_put _ _ _ := rfl

section Ensures

variable {w : World}

/-- A call of the store changes the database only. -/
theorem ensures_store {α : Type} {m : PGStore.Method α} {Q : α → World → Prop}
    (h : m.Ensures Store.effect (fun _ => True) w.db fun a db => Q a { w with db := db }) :
    (store m).Ensures effect Reliable w Q :=
  Prog.ensures_embed dbPart Input.toInput (fun _ _ => trivial) (fun _ _ _ => rfl)
    (fun _ _ _ => rfl) h

/-- A get returns the record under the key. -/
theorem ensures_get_json (k : DhtKey) :
    (getJSON k).Ensures effect Reliable w fun v w' => v = (w.dht k).getD k.tombstone ∧ w' = w := by
  intro input hinput
  have hanswer : effect (.getJSON k) input w = (w.dht k, w) := by
    show (if input.dhtFault = true then none else w.dht k, w) = (w.dht k, w)
    rw [hinput]
    rfl
  rw [hanswer]
  exact ⟨rfl, rfl⟩

/-- A put writes its record. -/
theorem ensures_put_json (k : DhtKey) (v : k.Value) :
    (putJSON k v).Ensures effect Reliable w fun _ w' => w' = w.write k v := by
  intro input hinput
  show (if input.dhtFault = true then w else w.write k v) = w.write k v
  rw [hinput]
  rfl

/-- A delete leaves the empty object. -/
theorem ensures_del_json (k : DhtKey) :
    (delJSON k).Ensures effect Reliable w fun _ w' => w' = w.write k k.tombstone :=
  ensures_put_json k k.tombstone

/-- Reading the clock changes nothing. -/
theorem ensures_time_now : timeNow.Ensures effect Reliable w fun _ w' => w' = w :=
  fun _ _ => rfl

/-- A job that is announced again stays as it is. -/
theorem ensures_enqueue (id : String) :
    (enqueue id).Ensures effect Reliable w fun _ w' => w'.db = w.db ∧ w'.dht = w.dht :=
  fun _ _ => ⟨rfl, rfl⟩

/-- A put writes its record. -/
theorem through_put_json {P : World → Call → Prop} {k : DhtKey} {v : k.Value}
    (h : P w (.putJSON k v)) :
    (putJSON k v).Through effect Reliable P w fun _ w' => w' = w.write k v :=
  ⟨h, ensures_put_json k v⟩

/-- A delete leaves the empty object. -/
theorem through_del_json {P : World → Call → Prop} {k : DhtKey} (h : P w (.delJSON k)) :
    (delJSON k).Through effect Reliable P w fun _ w' => w' = w.write k k.tombstone :=
  ⟨h, ensures_del_json k⟩

/-- A get returns the record under the key. -/
theorem through_get_json {P : World → Call → Prop} {k : DhtKey} (h : P w (.getJSON k)) :
    (getJSON k).Through effect Reliable P w fun v w' => v = (w.dht k).getD k.tombstone ∧ w' = w :=
  ⟨h, ensures_get_json k⟩

/-- Reading the clock changes nothing. -/
theorem through_time_now {P : World → Call → Prop} (h : P w .timeNow) :
    timeNow.Through effect Reliable P w fun _ w' => w' = w :=
  ⟨h, ensures_time_now⟩

end Ensures

end MutualCloud.Control
