import MutualCloud.Control.World
import MutualCloud.Dht.Cas

/-!
# The callbacks of `PutJSONCAS`

`Claim`, `Heartbeat` and `Release` of `internal/task/claim.go` on the key of a lease, and the
update of the index by `createTask` of `cmd/control/main.go`. The encoding of the records is a
parameter: of it only the round trip is used.
-/

namespace MutualCloud.Dht

open Go Interaction
open Control (TaskLease)

/-- The JSON encoding of the records under a key. Decoding leaves a record behind also when it
fails. -/
structure Codec (β L : Type) where
  marshal : L → β
  unmarshal : β → L × Option String
  /-- `len(data) == 0`. -/
  isEmpty : β → Bool
  unmarshal_marshal : ∀ l, unmarshal (marshal l) = (l, none)
  marshal_nonempty : ∀ l, isEmpty (marshal l) = false

namespace Codec

variable {β L : Type} [Inhabited L] (c : Codec β L)

/-- The record under the key, which is the zero value when there is none or it is corrupted. -/
def record (prev : Option β) : L :=
  match prev with
  | none => default
  | some data =>
      if c.isEmpty data then default
      else match c.unmarshal data with
        | (l, none) => l
        | (_, some _) => default

/-- There is no value under the key, an empty one, or one that decodes. -/
def Decodable (prev : Option β) : Prop :=
  ∀ data ∈ prev, c.isEmpty data = false → (c.unmarshal data).2 = none

@[simp] theorem record_marshal (l : L) : c.record (some (c.marshal l)) = l := by
  simp [record, c.marshal_nonempty, c.unmarshal_marshal]

omit [Inhabited L] in
/-- An encoded record decodes. -/
theorem decodable_marshal (l : L) : c.Decodable (some (c.marshal l)) := by
  intro data hdata _
  obtain rfl := Option.some.inj hdata
  rw [c.unmarshal_marshal]

end Codec

/-! ## The lease of a task -/

/-- `ttl`, or `DefaultLeaseTTL` when it is not positive. -/
def leaseTTL (ttl : Duration) : Duration := if ttl ≤ 0 then 20 * second else ttl

/-- A lease is granted for a positive time. -/
theorem lease_ttl_pos (ttl : Duration) : 0 < leaseTTL ttl := by
  unfold leaseTTL
  split
  · show (0 : Int) < 20 * 1000000000
    omega
  · next h => exact not_le.mp h

/-- A lease granted at a reading of the clock expires after Go's zero time. -/
theorem expires_pos (now : ℕ) (ttl : Duration) : (0 : Time) < now + leaseTTL ttl :=
  Int.add_pos_of_nonneg_of_pos (Int.natCast_nonneg now) (lease_ttl_pos ttl)

/-- The lease is held by somebody at the time `now`. -/
def Live (l : TaskLease) (now : Time) : Prop :=
  l.owner ≠ "" ∧ l.expires ≠ 0 ∧ now < l.expires

instance (l : TaskLease) (now : Time) : Decidable (Live l now) :=
  inferInstanceAs (Decidable (_ ∧ _ ∧ _))

section Checks

variable {β : Type} (c : Codec β TaskLease)

/-- The callback of `Claim`. Here and below `inc` is the increment of the version. -/
def claimCheck (inc : Int → Int) (peer nonce : String) (ttl : Duration) : Check β :=
  fun now prev =>
    let old := c.record prev
    if Live old now then .error .leaseBusy
    else .accept (c.marshal ⟨peer, nonce, now + leaseTTL ttl, inc old.version⟩)

/-- The callback of a call by the owner of the lease, who turns the record into `f cur`. -/
def ownerCheck (peer nonce : String) (f : Time → TaskLease → TaskLease) : Check β :=
  fun now prev =>
    match prev with
    | none => .refuse
    | some data =>
        if c.isEmpty data then .refuse
        else match c.unmarshal data with
          | (_, some e) => .error (.json e)
          | (cur, none) =>
              if cur.owner ≠ peer ∨ cur.nonce ≠ nonce then .error .leaseStolen
              else .accept (c.marshal (f now cur))

/-- The callback of `Heartbeat`. -/
def heartbeatCheck (inc : Int → Int) (peer nonce : String) (ttl : Duration) : Check β :=
  ownerCheck c peer nonce fun now cur =>
    { cur with expires := now + leaseTTL ttl, version := inc cur.version }

/-- The callback of `Release`, which does not look at the clock. -/
def releaseCheck (inc : Int → Int) (peer nonce : String) : Check β :=
  ownerCheck c peer nonce fun _ cur => ⟨"", "", 0, inc cur.version⟩

variable {c}

/-- A claim is accepted when the lease is free. -/
theorem claim_check_accept {inc : Int → Int} {peer nonce : String} {ttl : Duration} {now : Time}
    {prev : Option β} {next : β} :
    claimCheck c inc peer nonce ttl now prev = .accept next ↔
      ¬ Live (c.record prev) now ∧
        next = c.marshal ⟨peer, nonce, now + leaseTTL ttl, inc (c.record prev).version⟩ := by
  unfold claimCheck
  by_cases hlive : Live (c.record prev) now
  · simp [hlive]
  · simp [hlive, eq_comm]

/-- A call by the owner is accepted when the record carries its peer and nonce. -/
theorem owner_check_accept {peer nonce : String} {f : Time → TaskLease → TaskLease} {now : Time}
    {prev : Option β} {next : β} (hdec : c.Decodable prev) (hpeer : peer ≠ "") :
    ownerCheck c peer nonce f now prev = .accept next ↔
      (c.record prev).owner = peer ∧ (c.record prev).nonce = nonce ∧
        next = c.marshal (f now (c.record prev)) := by
  cases prev with
  | none => simp [ownerCheck, Codec.record, hpeer.symm]
  | some data =>
      cases hempty : c.isEmpty data with
      | true => simp [ownerCheck, Codec.record, hempty, hpeer.symm]
      | false =>
          have hnone := hdec data rfl hempty
          cases hdata : c.unmarshal data with
          | mk cur err =>
              rw [hdata] at hnone
              obtain rfl : err = none := hnone
              simp only [ownerCheck, Codec.record, hempty, hdata]
              by_cases howner : cur.owner = peer ∧ cur.nonce = nonce
              · simp [howner.1, howner.2, eq_comm]
              · have hor : cur.owner ≠ peer ∨ cur.nonce ≠ nonce := not_and_or.mp howner
                simp only [if_pos hor]
                exact ⟨nofun, fun h => absurd ⟨h.1, h.2.1⟩ howner⟩

end Checks

/-! ## The index of a namespace -/

/-- `task.TaskIndex`. -/
structure TaskIndex where
  ids : List String
  updatedAt : Time
  version : Int
  deriving DecidableEq

/-- Go's zero value. -/
instance : Inhabited TaskIndex := ⟨⟨[], 0, 0⟩⟩

section Index

variable {β : Type} (c : Codec β TaskIndex)

/-- The index that the callback of `createTask` starts from: what the decoder leaves behind, also
when it fails. -/
def Codec.index (prev : Option β) : TaskIndex :=
  match prev with
  | none => default
  | some data => if c.isEmpty data then default else (c.unmarshal data).1

/-- The callback of `createTask`, which takes the time of its caller. -/
def indexCheck (inc : Int → Int) (id : String) (now : Time) : Check β :=
  fun _ prev =>
    let idx := c.index prev
    let ids := if id ∈ idx.ids then idx.ids else idx.ids ++ [id]
    .accept (c.marshal ⟨ids, now, inc idx.version⟩)

@[simp] theorem Codec.index_marshal (idx : TaskIndex) : c.index (some (c.marshal idx)) = idx := by
  simp [Codec.index, c.marshal_nonempty, c.unmarshal_marshal]

end Index

/-! ## The calls -/

section Calls

variable {ι : Type} {ρ : ι → Type} {β : Type} [DecidableEq β] (key : KeyAccess ι ρ β)
  (c : Codec β TaskLease) (inc : Int → Int)

/-- `Claim`, with the nonce that `randNonce` returned. -/
def claim (peer nonce : String) (ttl : Duration) : Prog ι ρ (Except Err String) := do
  match ← putJSONCAS key (claimCheck c inc peer nonce ttl) with
  | .error e => pure (.error e)
  | .ok _ => pure (.ok nonce)

/-- `Heartbeat`. -/
def heartbeat (peer nonce : String) (ttl : Duration) : Prog ι ρ (Except Err Unit) :=
  putJSONCAS key (heartbeatCheck c inc peer nonce ttl)

/-- `Release`. -/
def release (peer nonce : String) : Prog ι ρ (Except Err Unit) :=
  putJSONCAS key (releaseCheck c inc peer nonce)

end Calls

end MutualCloud.Dht
