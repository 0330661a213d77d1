import MutualCloud.Control.Server
import MutualCloud.Dht.Replicas

/-!
# The keys of the DHT

Every record of the DHT is under a text that is put together from the name of its kind and, for the
records of a task, the id that a client chose. Nothing escapes the id. The helpers stand in
`internal/task/types.go`, `internal/task/index_sharded.go` and `cmd/control/control_http.go`, and
`nsKey` of `internal/dht/node.go` puts the namespace before their results.

`full_keys_eq_iff` says that two records have two keys. The kinds differ in the first character,
in how the text ends, or in its length. The model of the control server has its records in separate
places; `places_apart` says that these are places with separate keys.
-/

namespace MutualCloud.Control

open Go Dht

/-! ## The helpers -/

/-- The key of a record of a task, by how it ends. -/
def taskKey (tail id : String) : String := "task/" ++ id ++ tail

/-- `KeyMeta`. -/
def keyMeta (id : String) : String := taskKey "/meta" id

/-- `KeyState`. -/
def keyState (id : String) : String := taskKey "/state" id

/-- `KeyWS`. -/
def keyWS (id : String) : String := taskKey "/ws" id

/-- The key to which `logsHandler` puts its token. -/
def keyWSToken (id : String) : String := keyWS id ++ "_token"

/-- `KeyManifest`. -/
def keyManifest (id : String) : String := taskKey "/manifest" id

/-- `KeyFinishMirror`. -/
def keyFinishMirror (id : String) : String := taskKey "/finish" id

/-- `KeyLease`. -/
def keyLease (id : String) : String := taskKey "/lease" id

/-- `keyTaskAd`. -/
def keyTaskAd (ns id : String) : String := "ad/" ++ ns ++ "/task/" ++ id

/-- `keyP2PManifestMirror`. -/
def keyP2PManifestMirror (id : String) : String := "p2p/" ++ id ++ "/manifest"

/-- `KeyIndex`. -/
def keyIndex (ns : String) : String := "ns/" ++ ns ++ "/task/index"

/-- The verb `%02d` of `fmt.Sprintf`. -/
def twoDigits (n : ℕ) : String :=
  if (toString n).length < 2 then "0" ++ toString n else toString n

/-- `KeyIndexShard`. -/
def keyIndexShard (ns : String) (shard : ℕ) : String :=
  "ns/" ++ ns ++ "/task/index/" ++ twoDigits shard

/-- `AllIndexShards`. -/
def allIndexShards (ns : String) : List String :=
  (List.range taskIndexShardCount).map (keyIndexShard ns)

/-! ## The records -/

/-- The kinds of records whose key starts with `task/`. -/
inductive TaskRecord where
  | taskMeta
  | state
  | ws
  | wsToken
  | manifest
  | finishMirror
  | lease
  deriving DecidableEq

namespace TaskRecord

/-- The key of the record of a task. -/
def key : TaskRecord → String → String
  | taskMeta => keyMeta
  | state => keyState
  | ws => keyWS
  | wsToken => keyWSToken
  | manifest => keyManifest
  | finishMirror => keyFinishMirror
  | lease => keyLease

/-- How the key ends. -/
def tail : TaskRecord → String
  | taskMeta => "/meta"
  | state => "/state"
  | ws => "/ws"
  | wsToken => "/ws_token"
  | manifest => "/manifest"
  | finishMirror => "/finish"
  | lease => "/lease"

theorem key_eq (kind : TaskRecord) (id : String) : kind.key id = taskKey kind.tail id := by
  cases kind with
  | wsToken =>
      show "task/" ++ id ++ "/ws" ++ "_token" = "task/" ++ id ++ "/ws_token"
      rw [String.append_assoc]
      rfl
  | taskMeta | state | ws | manifest | finishMirror | lease => rfl

/-- No key ends like one of another kind. -/
theorem tails_apart {kind kind' : TaskRecord} (h : kind.tail.toList <:+ kind'.tail.toList) :
    kind = kind' := by
  revert h
  cases kind <;> cases kind' <;> decide

/-- The key of a record under `task/` tells its kind and its task. -/
theorem key_injective {kind kind' : TaskRecord} {id id' : String}
    (h : kind.key id = kind'.key id') : kind = kind' ∧ id = id' := by
  rw [key_eq, key_eq] at h
  unfold taskKey at h
  -- the two tails end one text, so one of them ends the other
  have htail : kind.tail.toList <:+ ("task/" ++ id ++ kind.tail).toList := by
    rw [String.toList_append]
    exact List.suffix_append _ _
  have htail' : kind'.tail.toList <:+ ("task/" ++ id ++ kind.tail).toList := by
    rw [h, String.toList_append]
    exact List.suffix_append _ _
  have hkind : kind = kind' := by
    rcases List.suffix_or_suffix_of_suffix htail htail' with hends | hends
    · exact tails_apart hends
    · exact (tails_apart hends).symm
  subst hkind
  rw [String.append_left_inj, String.append_right_inj] at h
  exact ⟨rfl, h⟩

end TaskRecord

/-- The records of one namespace. -/
inductive RecordKey where
  | task (kind : TaskRecord) (id : String)
  | taskAd (id : String)
  | manifestMirror (id : String)
  | index
  | indexShard (shard : Fin taskIndexShardCount)
  deriving DecidableEq

namespace RecordKey

/-- The key of a record, before `nsKey`. -/
def text (ns : String) : RecordKey → String
  | task kind id => kind.key id
  | taskAd id => keyTaskAd ns id
  | manifestMirror id => keyP2PManifestMirror id
  | index => keyIndex ns
  | indexShard shard => keyIndexShard ns shard

/-- The first character of the key. -/
def initial : RecordKey → Char
  | task _ _ => 't'
  | taskAd _ => 'a'
  | manifestMirror _ => 'p'
  | index | indexShard _ => 'n'

theorem text_initial (ns : String) (k : RecordKey) : (k.text ns).toList.head? = some k.initial := by
  cases k with
  | task kind id => simp [text, initial, TaskRecord.key_eq, taskKey]
  | taskAd id => simp [text, initial, keyTaskAd]
  | manifestMirror id => simp [text, initial, keyP2PManifestMirror]
  | index => simp [text, initial, keyIndex]
  | indexShard shard => simp [text, initial, keyIndexShard]

end RecordKey

/-- The number of a shard can be read in its key. -/
theorem atoi_two_digits (shard : Fin taskIndexShardCount) :
    atoi (twoDigits shard) = some (shard : Int) := by
  revert shard
  decide +kernel

/-- The key of a shard tells its number. -/
theorem key_index_shard_injective {ns : String} {i j : Fin taskIndexShardCount}
    (h : keyIndexShard ns i = keyIndexShard ns j) : i = j := by
  unfold keyIndexShard at h
  rw [String.append_right_inj] at h
  have hread : some ((i : ℕ) : Int) = some ((j : ℕ) : Int) := by
    rw [← atoi_two_digits i, ← atoi_two_digits j, h]
  exact Fin.ext (Int.ofNat.inj (Option.some.inj hread))

/-- The key of a shard goes on where that of the single index ends. -/
theorem key_index_ne_shard (ns : String) (shard : ℕ) : keyIndex ns ≠ keyIndexShard ns shard := by
  intro h
  have hshard : keyIndexShard ns shard = keyIndex ns ++ ("/" ++ twoDigits shard) := by
    unfold keyIndexShard keyIndex
    simp only [String.append_assoc]
    rfl
  have hlength := congrArg (fun s => s.toList.length) (h.trans hshard)
  simp at hlength

/-- The helpers give different keys to different records of a namespace. -/
theorem RecordKey.text_injective (ns : String) : Function.Injective (RecordKey.text ns) := by
  intro a b h
  have hinitial : a.initial = b.initial := by
    have hheads := congrArg (fun s => s.toList.head?) h
    rw [text_initial, text_initial] at hheads
    exact Option.some.inj hheads
  cases a with
  | task kind id =>
      cases b with
      | task kind' id' =>
          obtain ⟨rfl, rfl⟩ := TaskRecord.key_injective h
          rfl
      | taskAd | manifestMirror | index | indexShard => simp [initial] at hinitial
  | taskAd id =>
      cases b with
      | taskAd id' => exact congrArg taskAd ((String.append_right_inj _).mp h)
      | task | manifestMirror | index | indexShard => simp [initial] at hinitial
  | manifestMirror id =>
      cases b with
      | manifestMirror id' =>
          have hid := (String.append_right_inj _).mp ((String.append_left_inj _).mp h)
          exact congrArg manifestMirror hid
      | task | taskAd | index | indexShard => simp [initial] at hinitial
  | index =>
      cases b with
      | index => rfl
      | indexShard shard => exact absurd h (key_index_ne_shard ns shard)
      | task | taskAd | manifestMirror => simp [initial] at hinitial
  | indexShard shard =>
      cases b with
      | indexShard shard' => exact congrArg indexShard (key_index_shard_injective h)
      | index => exact absurd h.symm (key_index_ne_shard ns shard)
      | task | taskAd | manifestMirror => simp [initial] at hinitial

/-- A namespace in front keeps keys apart. -/
theorem ns_key_injective (ns : String) : Function.Injective (nsKey ns) := by
  intro key key' h
  unfold nsKey at h
  split at h
  · exact (String.append_right_inj _).mp h
  · exact (String.append_right_inj _).mp h

/-- The keys of the DHT do not collide. Whatever the namespace of the node, whatever the namespace
in the keys, and whatever the ids, two records have one full key only if they are of one kind, and
of one task or one shard. -/
theorem full_keys_eq_iff (space ns : String) (a b : RecordKey) :
    nsKey space (a.text ns) = nsKey space (b.text ns) ↔ a = b := by
  constructor
  · intro h
    exact RecordKey.text_injective ns (ns_key_injective space h)
  · intro h
    rw [h]

/-- An id can look like the key of another record. -/
example : nsKey "mc" ((RecordKey.task .state "a/state").text "mc") = "/mc/task/a/state/state" ∧
    nsKey "mc" ((RecordKey.task .wsToken "a").text "mc") = "/mc/task/a/ws_token" ∧
    nsKey "" ((RecordKey.indexShard ⟨7, by decide⟩).text "mc") = "/ns/mc/task/index/07" := by
  decide +kernel

/-- The shards of the namespace are those that `AllIndexShards` lists. -/
theorem mem_all_index_shards {ns key : String} :
    key ∈ allIndexShards ns ↔ ∃ shard, key = (RecordKey.indexShard shard).text ns := by
  unfold allIndexShards
  rw [List.mem_map]
  constructor
  · intro h
    obtain ⟨shard, hshard, rfl⟩ := h
    exact ⟨⟨shard, List.mem_range.mp hshard⟩, rfl⟩
  · intro h
    obtain ⟨shard, rfl⟩ := h
    exact ⟨shard, List.mem_range.mpr shard.isLt, rfl⟩

/-! ## The places of the model -/

/-- Where the model of the control server has a record of the DHT. -/
inductive Place where
  | mirror (k : DhtKey)
  | directory (k : DirKey)
  | ws (id : String)
  | wsToken (id : String)
  deriving DecidableEq

namespace Place

/-- The key of the record. -/
def text : Place → String
  | mirror (.state id) => keyState id
  | mirror (.lease id) => keyLease id
  | mirror (.taskAd ns id) => keyTaskAd ns id
  | mirror (.manifestMirror id) => keyP2PManifestMirror id
  | directory (.taskMeta id) => keyMeta id
  | directory (.manifest id) => keyManifest id
  | directory (.index ns) => keyIndex ns
  | directory (.indexShard ns shard) => keyIndexShard ns shard
  | ws id => keyWS id
  | wsToken id => keyWSToken id

/-- The record, if the place belongs to the namespace. -/
def record (ns : String) : Place → Option RecordKey
  | mirror (.state id) => some (.task .state id)
  | mirror (.lease id) => some (.task .lease id)
  | mirror (.taskAd ns' id) => if ns' = ns then some (.taskAd id) else none
  | mirror (.manifestMirror id) => some (.manifestMirror id)
  | directory (.taskMeta id) => some (.task .taskMeta id)
  | directory (.manifest id) => some (.task .manifest id)
  | directory (.index ns') => if ns' = ns then some .index else none
  | directory (.indexShard ns' shard) =>
      if h : ns' = ns ∧ shard < taskIndexShardCount then some (.indexShard ⟨shard, h.2⟩) else none
  | ws id => some (.task .ws id)
  | wsToken id => some (.task .wsToken id)

/-- The place of a record. -/
def ofRecord (ns : String) : RecordKey → Option Place
  | .task .taskMeta id => some (directory (.taskMeta id))
  | .task .state id => some (mirror (.state id))
  | .task .ws id => some (ws id)
  | .task .wsToken id => some (wsToken id)
  | .task .manifest id => some (directory (.manifest id))
  | .task .finishMirror _ => none
  | .task .lease id => some (mirror (.lease id))
  | .taskAd id => some (mirror (.taskAd ns id))
  | .manifestMirror id => some (mirror (.manifestMirror id))
  | .index => some (directory (.index ns))
  | .indexShard shard => some (directory (.indexShard ns shard))

variable {ns : String} {p q : Place} {k : RecordKey}

/-- A place has the key of its record, and is found from it. -/
theorem of_record_eq (h : p.record ns = some k) : p.text = k.text ns ∧ ofRecord ns k = some p := by
  cases p with
  | mirror place =>
      cases place with
      | taskAd ns' id =>
          rw [record] at h
          split at h
          next heq =>
            subst heq
            cases h
            exact ⟨rfl, rfl⟩
          next => cases h
      | state | lease | manifestMirror =>
          cases h
          exact ⟨rfl, rfl⟩
  | directory place =>
      cases place with
      | index ns' =>
          rw [record] at h
          split at h
          next heq =>
            subst heq
            cases h
            exact ⟨rfl, rfl⟩
          next => cases h
      | indexShard ns' shard =>
          rw [record] at h
          split at h
          next heq =>
            obtain ⟨rfl, hlt⟩ := heq
            cases h
            exact ⟨rfl, rfl⟩
          next => cases h
      | taskMeta | manifest =>
          cases h
          exact ⟨rfl, rfl⟩
  | ws | wsToken =>
      cases h
      exact ⟨rfl, rfl⟩

/-- Two places of one namespace that have one full key are one place. -/
theorem places_apart (space : String) (hp : (p.record ns).isSome) (hq : (q.record ns).isSome)
    (h : nsKey space p.text = nsKey space q.text) : p = q := by
  obtain ⟨k, hk⟩ := Option.isSome_iff_exists.mp hp
  obtain ⟨k', hk'⟩ := Option.isSome_iff_exists.mp hq
  obtain ⟨htext, hplace⟩ := of_record_eq hk
  obtain ⟨htext', hplace'⟩ := of_record_eq hk'
  obtain rfl : k = k' := by
    apply RecordKey.text_injective ns
    rw [← htext, ← htext']
    exact ns_key_injective space h
  exact Option.some.inj (hplace.symm.trans hplace')

end Place

end MutualCloud.Control
