import MutualCloud.Dht.Callbacks

/-!
# Which replica a get returns

`NewNode` of `internal/dht/node.go` gives the DHT a `record.NamespacedValidator` whose only entry is
`noopValidator`. A get asks the peers that hold a replica and folds their answers in the order in
which they arrive (`processValues` of the DHT), with the validator to compare two values.
`process_values_first` says what comes out: the first answer.
-/

namespace MutualCloud.Dht

open Go

/-! ## The validator of a node -/

/-- The method `Select` of a `record.Validator`: the index of the best of some values. -/
abbrev Validator (β : Type) := String → List β → Except String ℕ

/-- `noopValidator`. -/
def noopValidator {β : Type} : Validator β := fun _ _ => .ok 0

/-- `record.ErrInvalidRecordType`. -/
def invalidRecordType : String := "invalid record keytype"

/-- `record.SplitKey`: the namespace and the path of a key. -/
def splitKey (key : String) : Except String (String × String) :=
  match key.toList with
  | '/' :: rest =>
      let ns := rest.takeWhile (· ≠ '/')
      if ns = [] ∨ '/' ∉ rest then .error invalidRecordType
      else .ok (String.ofList ns, String.ofList (rest.drop (ns.length + 1)))
  | _ => .error invalidRecordType

/-- `record.NamespacedValidator`, a map. -/
abbrev NamespacedValidator (β : Type) := String → Option (Validator β)

namespace NamespacedValidator

variable {β : Type} (v : NamespacedValidator β)

/-- `ValidatorByKey`. -/
def validatorByKey (key : String) : Option (Validator β) :=
  match splitKey key with
  | .error _ => none
  | .ok (ns, _) => v ns

/-- `Select`. -/
def select : Validator β := fun key values =>
  if values = [] then .error "can't select from no values"
  else match v.validatorByKey key with
    | none => .error invalidRecordType
    | some vi => vi key values

end NamespacedValidator

/-- The validator that `NewNode` gives to the DHT. -/
def nodeValidator {β : Type} (ns : String) : NamespacedValidator β :=
  fun name => if name = ns then some noopValidator else none

/-- Whatever the key, the validator of a node never prefers the second value. -/
theorem node_select_ne {β : Type} (ns key : String) (best v : β) :
    (nodeValidator ns).select key [best, v] ≠ .ok 1 := by
  intro h
  have hnil : ([best, v] : List β) ≠ [] := List.cons_ne_nil _ _
  rw [NamespacedValidator.select, if_neg hnil] at h
  split at h
  · cases h
  next vi hvi =>
      unfold NamespacedValidator.validatorByKey at hvi
      split at hvi
      · cases hvi
      · unfold nodeValidator at hvi
        split at hvi
        · cases hvi
          cases h
        · cases hvi

/-- `Node.nsKey`. -/
def nsKey (ns key : String) : String :=
  if ns = "" then "/" ++ key else "/" ++ ns ++ "/" ++ key

/-! ## The fold of the replicas -/

section Fold

variable {β : Type} [DecidableEq β]

/-- `processValues` of the DHT, on the values in the order of their arrival. -/
def processValues (validator : Validator β) (key : String) : Option β → List β → Option β
  | best, [] => best
  | none, v :: rest => processValues validator key (some v) rest
  | some best, v :: rest =>
      if best = v then processValues validator key (some best) rest
      else match validator key [best, v] with
        | .ok 1 => processValues validator key (some v) rest
        | _ => processValues validator key (some best) rest

/-- The value that a node has is kept through all later answers. -/
theorem process_values_keeps (ns key : String) (best : β) (values : List β) :
    processValues (nodeValidator ns).select key (some best) values = some best := by
  induction values with
  | nil => rfl
  | cons v rest ih =>
      rw [processValues]
      split
      · exact ih
      · split
        next h => exact absurd h (node_select_ne ns key best v)
        · exact ih

/-- A get returns the answer that arrived first. -/
theorem process_values_first (ns key : String) (values : List β) :
    processValues (nodeValidator ns).select key none values = values.head? := by
  cases values with
  | nil => rfl
  | cons v rest => exact process_values_keeps ns key v rest

end Fold

/-! ## The order of arrival -/

section Order

variable {β : Type} [DecidableEq β]

/-- The fold ends with this value in every order of arrival, and no value is of a later version. -/
structure Chosen (validator : Validator β) (key : String) (version : β → Int) (values : List β)
    (best : β) : Prop where
  stable : ∀ order, order.Perm values → processValues validator key none order = some best
  newest : ∀ v ∈ values, version v ≤ version best

/-- The value that a node chooses from replicas of different versions is the same in every order of
arrival, and the newest, exactly when there is one replica only. -/
theorem replica_choice_iff (ns key : String) (version : β → Int) {values : List β}
    (hne : values ≠ []) (hdistinct : (values.map version).Nodup) :
    (∃ best, Chosen (nodeValidator ns).select key version values best) ↔ values.length = 1 := by
  constructor
  · intro ⟨best, hchosen⟩
    match values, hne, hdistinct, hchosen with
    | [v], _, _, _ => rfl
    | first :: second :: rest, _, hdistinct, hchosen =>
        -- either of the two may arrive first
        have hfirst := hchosen.stable _ (.refl _)
        have hsecond := hchosen.stable _ (.swap first second rest)
        rw [process_values_first, List.head?_cons] at hfirst hsecond
        have hsame : first = second := Option.some.inj (hfirst.trans hsecond.symm)
        rw [hsame] at hdistinct
        simp at hdistinct
  · intro hone
    obtain ⟨v, rfl⟩ := List.length_eq_one_iff.mp hone
    refine ⟨v, ⟨fun order horder => ?_, fun w hw => ?_⟩⟩
    · rw [List.perm_singleton.mp horder, process_values_first, List.head?_cons]
    · rw [List.mem_singleton.mp hw]

end Order

namespace Sample

/-- An index, and the next version of it. -/
def oldIndex : TaskIndex := ⟨["first"], 0, 1⟩

/-- The next version, with another task. -/
def newIndex : TaskIndex := ⟨["first", "second"], 1, 2⟩

end Sample

/-- One replica answers. -/
theorem replica_choice_iff_single :
    ∃ best, Chosen (nodeValidator "mc").select (nsKey "mc" "task/index") TaskIndex.version
      [Sample.newIndex] best := by
  have hdistinct : ([Sample.newIndex].map TaskIndex.version).Nodup := List.nodup_singleton _
  exact (replica_choice_iff "mc" _ _ (List.cons_ne_nil _ _) hdistinct).mpr rfl

/-- The index is read in its old version when the peer that has it answers first. -/
theorem replica_choice_old :
    let get := processValues (nodeValidator "mc").select (nsKey "mc" "task/index") none
    Sample.oldIndex.version < Sample.newIndex.version ∧
      get [Sample.newIndex, Sample.oldIndex] = some Sample.newIndex ∧
      get [Sample.oldIndex, Sample.newIndex] = some Sample.oldIndex := by
  decide

end MutualCloud.Dht
