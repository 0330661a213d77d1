import MutualCloud.Dht.Cas

/-!
# Puts, deletes and gets of one node

`PutJSON`, `DelJSON` and `GetJSON` of `internal/dht/json.go`. A value lives in the network or in
the map `localStore` of the process: a put goes to the map when the node has no peer, a get reads
the map when the network fails, and only a delete removes what is in the map. `Session` runs calls
one after another and remembers what the last write that returned nil wrote; `copies_run` says where
the copies of a run come from, and `own_write_read_iff` when every get returns that write.

Values stand for their JSON texts, which `json.Unmarshal` reads back. `DelJSON` puts the empty
object.
-/

namespace MutualCloud.Dht

open Go Interaction

/-! ## The calls -/

section Code

variable {ι : Type} {ρ : ι → Type} {β : Type} (key : KeyAccess ι ρ β)

/-- The part of `PutJSON` after the put: without peers the value goes to `localStore`. -/
def keepLocal (v : β) : Option String → Prog ι ρ (Option String)
  | none => pure none
  | some e =>
      if noPeer e then do
        key.storeLocal v
        pure none
      else pure (some e)

/-- `PutJSON`. -/
def putJSON (v : β) : Prog ι ρ (Option String) := do
  let result ← key.putValue v
  keepLocal key v result

/-- `DelJSON`, where the empty object is `empty`. -/
def delJSON (deleteLocal : Prog ι ρ Unit) (empty : β) : Prog ι ρ (Option String) := do
  match ← putJSON key empty with
  | some e => pure (some e)
  | none => do
      deleteLocal
      pure none

/-- `GetJSON`. -/
def getJSON : Prog ι ρ (Except String β) := do
  match ← key.getValue with
  | .ok v => pure (.ok v)
  | .error e =>
      match ← key.loadLocal with
      | some v => pure (.ok v)
      | none => pure (.error e)

end Code

/-! ## One key -/

variable {β : Type}

/-- The steps on the key, with the removal of the copy in `localStore`. -/
inductive JsonOp (β : Type) where
  | base (op : Op β)
  | deleteLocal

/-- What a step returns. -/
abbrev JsonOp.Response : JsonOp β → Type
  | base op => op.Response
  | deleteLocal => Unit

/-- How the register answers a step. -/
def jsonEffect : Effect (JsonOp β) JsonOp.Response Input (Register β)
  | .base op, input, s => effect op input s
  | .deleteLocal, _, s => ((), { s with loc := none })

/-- The access to the key. -/
def jsonAccess : KeyAccess (JsonOp β) JsonOp.Response β where
  getValue := Prog.perform (JsonOp.base .getValue)
  putValue v := Prog.perform (JsonOp.base (.putValue v))
  loadLocal := Prog.perform (JsonOp.base .loadLocal)
  storeLocal v := Prog.perform (JsonOp.base (.storeLocal v))
  timeNow := Prog.perform (JsonOp.base .timeNow)

/-- A call that writes. -/
inductive Write (β : Type) where
  | put (v : β)
  | del
  deriving DecidableEq

namespace Write

/-- What the call writes. -/
def value (empty : β) : Write β → β
  | put v => v
  | del => empty

/-- The code of the call. -/
def code (empty : β) : Write β → Prog (JsonOp β) JsonOp.Response (Option String)
  | put v => putJSON jsonAccess v
  | del => delJSON jsonAccess (Prog.perform JsonOp.deleteLocal) empty

end Write

/-- How the `PutValue` of a call goes. -/
inductive Mode where
  /-- It succeeds. -/
  | reached
  /-- It fails with the error of a node without peers. -/
  | alone
  /-- It fails otherwise. -/
  | failed
  deriving DecidableEq

/-- The mode of a put with this input. -/
def Input.mode (input : Input) : Mode :=
  match input.fault with
  | none => .reached
  | some e => if noPeer e then .alone else .failed

/-- The register after a call. -/
def Write.after (empty : β) (w : Write β) (mode : Mode) (s : Register β) : Register β :=
  match w, mode with
  | .put v, .reached => { s with net := some v }
  | .put v, .alone => { s with loc := some v }
  | .del, .reached => ⟨some empty, none⟩
  | .del, .alone => { s with loc := none }
  | _, .failed => s

/-- The three modes, by the error of the put. -/
theorem Input.mode_cases (input : Input) :
    (input.fault = none ∧ input.mode = .reached) ∨
    (∃ e, input.fault = some e ∧ noPeer e = true ∧ input.mode = .alone) ∨
    ∃ e, input.fault = some e ∧ ¬ noPeer e = true ∧ input.mode = .failed := by
  unfold Input.mode
  cases input.fault with
  | none => exact .inl ⟨rfl, rfl⟩
  | some e =>
      by_cases hpeer : noPeer e = true
      · exact .inr (.inl ⟨e, rfl, hpeer, if_pos hpeer⟩)
      · exact .inr (.inr ⟨e, rfl, hpeer, if_neg hpeer⟩)

/-- A call returns nil unless its put fails with peers around, and its mode says what it leaves. -/
theorem write_run (empty : β) (w : Write β) (inputs : ℕ → Input) (s : Register β) :
    (((w.code empty).run jsonEffect inputs s).value = none ↔ (inputs 0).mode ≠ .failed) ∧
      ((w.code empty).run jsonEffect inputs s).state = w.after empty (inputs 0).mode s := by
  rcases (inputs 0).mode_cases with ⟨hfault, hmode⟩ | ⟨e, hfault, hpeer, hmode⟩ |
    ⟨e, hfault, hpeer, hmode⟩
  all_goals
    rw [hmode]
    cases w <;>
      simp [Write.code, Write.after, putJSON, keepLocal, delJSON, jsonAccess, Prog.perform,
        Prog.run, jsonEffect, effect, *]

/-- A get returns the value of the network, or that of `localStore` when the network fails or has
none, and changes nothing. -/
theorem get_run (inputs : ℕ → Input) (s : Register β) :
    (∀ v, ((getJSON jsonAccess).run jsonEffect inputs s).value = .ok v ↔
      ((inputs 0).fault = none ∧ s.net = some v) ∨
        (((inputs 0).fault ≠ none ∨ s.net = none) ∧ s.loc = some v)) ∧
      ((getJSON jsonAccess).run jsonEffect inputs s).state = s := by
  cases hfault : (inputs 0).fault <;> cases hnet : s.net <;> cases hloc : s.loc <;>
    simp [getJSON, jsonAccess, Prog.perform, Prog.run, jsonEffect, effect, Register.get, *]

/-! ## Calls one after another -/

/-- A call of the node. -/
inductive JsonCall (β : Type) where
  | write (w : Write β)
  | get

/-- Calls of the node, oldest first, each with its inputs. -/
abbrev Calls (β : Type) := List (JsonCall β × (ℕ → Input))

/-- The register, and what the last `PutJSON` or `DelJSON` that returned nil wrote. -/
structure Session (β : Type) where
  register : Register β
  last : Option β

/-- A call with its inputs runs to its end. -/
def Session.after (empty : β) (s : Session β) : JsonCall β × (ℕ → Input) → Session β
  | (.write w, inputs) =>
      let run := (w.code empty).run jsonEffect inputs s.register
      ⟨run.state, if run.value = none then some (w.value empty) else s.last⟩
  | (.get, inputs) =>
      { s with register := ((getJSON jsonAccess).run jsonEffect inputs s.register).state }

/-- The calls run one after another, on a key that nobody has written. -/
def Session.play (empty : β) (calls : Calls β) : Session β :=
  calls.foldl (Session.after empty) ⟨⟨none, none⟩, none⟩

/-- What the last write was for which `f` has an answer. -/
def lastOf {γ : Type} (f : Write β → Mode → Option γ) (calls : Calls β) : Option γ :=
  calls.reverse.findSome? fun
    | (.write w, inputs) => f w (inputs 0).mode
    | (.get, _) => none

/-- A later write counts before the earlier ones. -/
theorem lastOf_write {γ : Type} (f : Write β → Mode → Option γ)
    (calls : Calls β) (w : Write β) (inputs : ℕ → Input) :
    lastOf f (calls ++ [(.write w, inputs)]) = (f w (inputs 0).mode).or (lastOf f calls) := by
  unfold lastOf
  rw [List.reverse_append, List.reverse_singleton, List.singleton_append, List.findSome?_cons]
  dsimp only
  cases f w (inputs 0).mode <;> rfl

/-- A get is no write. -/
theorem lastOf_get {γ : Type} (f : Write β → Mode → Option γ)
    (calls : Calls β) (inputs : ℕ → Input) :
    lastOf f (calls ++ [(.get, inputs)]) = lastOf f calls := by
  unfold lastOf
  rw [List.reverse_append, List.reverse_singleton, List.singleton_append, List.findSome?_cons]

/-- What the last write wrote whose put did not fail with peers around. -/
def acknowledged (empty : β) : Calls β → Option β :=
  lastOf fun w mode => if mode = .failed then none else some (w.value empty)

/-- What the last write wrote whose put succeeded. -/
def reached (empty : β) : Calls β → Option β :=
  lastOf fun w mode => if mode = .reached then some (w.value empty) else none

/-- What the last put without a peer wrote, if there was no delete since. -/
def kept (calls : Calls β) : Option β :=
  (lastOf (fun
    | .put v, .alone => some (some v)
    | .put _, _ | .del, .failed => none
    | .del, _ => some none) calls).join

/-- Where the copies of a run come from. -/
theorem copies_run (empty : β) (calls : Calls β) :
    Session.play empty calls =
      ⟨⟨reached empty calls, kept calls⟩, acknowledged empty calls⟩ := by
  -- the last call is the one that may have changed a copy
  induction calls using List.reverseRecOn with
  | nil => rfl
  | append_singleton calls c ih =>
      obtain ⟨call, inputs⟩ := c
      have hplay : Session.play empty (calls ++ [(call, inputs)]) =
          (Session.play empty calls).after empty (call, inputs) := by
        simp only [Session.play, List.foldl_append, List.foldl_cons, List.foldl_nil]
      rw [hplay, ih]
      cases call with
      | get =>
          simp only [Session.after, (get_run inputs _).2, reached, kept, acknowledged, lastOf_get]
      | write w =>
          obtain ⟨hvalue, hstate⟩ := write_run empty w inputs ⟨reached empty calls, kept calls⟩
          simp only [Session.after, hstate, hvalue]
          simp only [reached, kept, acknowledged, lastOf_write]
          cases (inputs 0).mode <;> cases w <;> rfl

/-! ## Reading one's own writes -/

/-- The copy that a get reads is of the last write that returned nil: when the network answers, that
write reached it; when it does not, nothing else is left in `localStore`. -/
structure Current (empty : β) (before : Calls β) (input : Input) : Prop where
  network : input.fault = none → ∀ v, reached empty before = some v →
    acknowledged empty before = some v
  fallback : input.fault ≠ none ∨ reached empty before = none → ∀ v, kept before = some v →
    acknowledged empty before = some v

/-- A get that returns nil returns the last write that returned nil exactly when its copy is
current. -/
theorem get_current_iff (empty : β) (before : Calls β)
    (inputs : ℕ → Input) :
    (∀ v, ((getJSON jsonAccess).run jsonEffect inputs (Session.play empty before).register).value =
      .ok v → (Session.play empty before).last = some v) ↔ Current empty before (inputs 0) := by
  rw [copies_run]
  constructor
  · intro h
    exact ⟨fun hfault v hv => h v (((get_run inputs _).1 v).mpr (.inl ⟨hfault, hv⟩)),
      fun hfails v hv => h v (((get_run inputs _).1 v).mpr (.inr ⟨hfails, hv⟩))⟩
  · intro h v hv
    rcases ((get_run inputs _).1 v).mp hv with ⟨hfault, hnet⟩ | ⟨hfails, hloc⟩
    · exact h.network hfault v hnet
    · exact h.fallback hfails v hloc

/-- In any sequence of calls of one node, every get that returns nil returns what the last write
that returned nil wrote, exactly when every get finds a current copy. -/
theorem own_write_read_iff (empty : β) (calls : Calls β) :
    (∀ before inputs after, calls = before ++ (.get, inputs) :: after → ∀ v,
      ((getJSON jsonAccess).run jsonEffect inputs (Session.play empty before).register).value =
        .ok v → (Session.play empty before).last = some v) ↔
    ∀ before inputs after, calls = before ++ (.get, inputs) :: after →
      Current empty before (inputs 0) := by
  constructor
  · intro h before inputs after heq
    exact (get_current_iff empty before inputs).mp (h before inputs after heq)
  · intro h before inputs after heq
    exact (get_current_iff empty before inputs).mpr (h before inputs after heq)

namespace Sample

/-- A step without an error. -/
def works (_ : ℕ) : Input := {}

/-- The node has no peer. -/
def noPeers (_ : ℕ) : Input := { fault := some "failed to find any peer in table" }

/-- Two puts, the first before the node had a peer. -/
def putTwice : Calls String :=
  [(.write (.put "old"), noPeers), (.write (.put "new"), works)]

/-- A put, and a delete when the peers are gone. -/
def putDelete : Calls String :=
  [(.write (.put "old"), works), (.write .del, noPeers)]

end Sample

/-- The last write is `new`, and a get that the network fails returns `old`. The last write is the
delete, and a get after the peers are back returns `old`. -/
theorem own_write_stale :
    let get := fun calls inputs => ((getJSON jsonAccess).run jsonEffect inputs
      (Session.play "\x7b\x7d" calls).register).value
    (Session.play "\x7b\x7d" Sample.putTwice).last = some "new" ∧
      get Sample.putTwice Sample.noPeers = .ok "old" ∧
      (Session.play "\x7b\x7d" Sample.putDelete).last = some "\x7b\x7d" ∧
      get Sample.putDelete Sample.works = .ok "old" := by
  refine ⟨rfl, rfl, rfl, rfl⟩

end MutualCloud.Dht
