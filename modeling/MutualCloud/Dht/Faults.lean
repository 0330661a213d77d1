import MutualCloud.Dht.Lease

/-!
# `PutJSONCAS` when gets and puts fail

A call that nobody disturbs, under every pattern of faults. A put that succeeded but could not be
read back is tried again, and the next try takes the caller's own value for that of another
caller. `Clean` is the condition on the pattern and the start that excludes this, and the other
way to go wrong: a read that fails while the network holds a value. `failed_claim_iff` says that
it is exact.
-/

namespace MutualCloud.Dht

open Go Interaction Labelled
open Control (TaskLease)

variable {β : Type}

/-- The value stored under the key: that of the network, else that of the process. -/
def Register.stored (s : Register β) : Option β :=
  match s.net with
  | some v => some v
  | none => s.loc

/-- At the first try that comes to write, the callback answers as it does on the stored value,
and a value put in the network is read back or is already in the map of the process. The first
try with `n` tries left reads at the input 0, takes the clock at the next and then puts. -/
def Clean (check : Check β) : ℕ → (ℕ → Input) → Register β → Prop
  | 0, _, _ => True
  | n + 1, inputs, s =>
      let k := s.prevSteps (inputs 0)
      let now : Time := (inputs k).now
      match check now (s.prev (inputs 0)) with
      | .error _ => True
      | .refuse => Clean check n (later inputs (k + 1)) s
      | .accept next =>
          match (inputs (k + 1)).fault with
          | none =>
              check now s.stored = .accept next ∧
                ((inputs (k + 2)).fault = none ∨ s.loc = some next)
          | some e =>
              if noPeer e then check now s.stored = .accept next
              else Clean check n (later inputs (k + 2)) s

/-- The call wrote once, and what it wrote is the answer of the callback to the value stored when
the call started. -/
def WroteOnce (check : Check β) (s : Register β) (written : List (Time × β)) : Prop :=
  ∃ now next, written = [(now, next)] ∧ check now s.stored = .accept next

namespace Tries

variable {check : Check β} {n : ℕ} {lastErr : Option Err} {inputs : ℕ → Input} {s : Register β}
  {t : Trace β}

/-- A call that returns nil has written. -/
theorem writes_of_ok (h : Tries check n lastErr inputs s t) (hok : t.value = .ok ()) :
    t.writes ≠ [] := by
  induction h with
  | exhausted | failed => exact nomatch hok
  | refused _ _ _ ih | lost _ _ _ _ _ ih => exact ih hok
  | kept | verified | unverified => simp

/-- A call that has not written leaves the register as it was. -/
theorem state_of_no_writes (h : Tries check n lastErr inputs s t) (hwrites : t.writes = []) :
    t.state = s := by
  induction h with
  | exhausted | failed => rfl
  | refused _ _ _ ih | lost _ _ _ _ _ ih => exact ih hwrites
  | kept | verified | unverified => exact nomatch hwrites

/-- A call that returns an error leaves in the network the old value or an accepted one. -/
theorem net_of_error (h : Tries check n lastErr inputs s t) (herror : t.value ≠ .ok ()) :
    (t.writes = [] ∧ t.state = s) ∨
      ∃ now prev next, check now prev = .accept next ∧ t.state.net = some next := by
  induction h with
  | exhausted | failed => exact .inl ⟨rfl, rfl⟩
  | refused _ _ _ ih | lost _ _ _ _ _ ih => exact ih herror
  | kept | verified => exact absurd rfl herror
  | unverified _ hcheck _ _ _ ih =>
      rcases ih herror with ⟨_, hstate⟩ | hnext
      · refine .inr ⟨_, _, _, hcheck, ?_⟩
        rw [hstate]
      · exact .inr hnext

/-- The condition is exact: it holds when the call wrote once on top of the stored value and
returned nil, and when it wrote nothing and returned an error. -/
theorem clean_iff (h : Tries check n lastErr inputs s t) :
    Clean check n inputs s ↔
      (t.value = .ok () ∧ WroteOnce check s t.writes) ∨ (t.value ≠ .ok () ∧ t.writes = []) := by
  induction h with
  | exhausted => exact iff_of_true trivial (.inr ⟨nofun, rfl⟩)
  | failed hsteps hcheck =>
      subst hsteps
      refine iff_of_true ?_ (.inr ⟨nofun, rfl⟩)
      simp only [Clean, hcheck]
  | refused hsteps hcheck _ ih =>
      subst hsteps
      simp only [Clean, hcheck]
      exact ih
  | lost hsteps hcheck hput hpeer _ ih =>
      subst hsteps
      simp only [Clean, hcheck, hput, hpeer]
      exact ih
  | kept hsteps hcheck hput hpeer =>
      subst hsteps
      simp only [Clean, hcheck, hput, hpeer]
      simp [WroteOnce]
  | verified hsteps hcheck hput hverify =>
      subst hsteps
      simp only [Clean, hcheck, hput]
      simp [WroteOnce, hverify]
  | unverified hsteps hcheck hput hverify hrest =>
      subst hsteps
      simp only [Clean, hcheck, hput]
      -- a second write comes with nil, and the first is there in any case
      refine iff_of_false (fun h => hverify h.2) ?_
      rintro (⟨hok, now, next, hone, _⟩ | ⟨_, hnone⟩)
      · exact hrest.writes_of_ok hok (List.cons.inj hone).2
      · exact nomatch hnone

end Tries

section Calls

variable [DecidableEq β] {c : Codec β TaskLease} {inc : Int → Int} {peer nonce : String}
  {ttl : Duration} {inputs : ℕ → Input} {s : Register β}

/-- A claim does what its `PutJSONCAS` does, and returns its nonce for nil. -/
theorem claim_run :
    (claim register c inc peer nonce ttl).run effect inputs s =
      let r := (putJSONCAS register (claimCheck c inc peer nonce ttl)).run effect inputs s
      ⟨r.value.map fun _ => nonce, r.events, r.state⟩ := by
  unfold claim
  rw [Prog.run_bind]
  generalize (putJSONCAS register (claimCheck c inc peer nonce ttl)).run effect inputs s = r
  obtain ⟨value, events, state⟩ := r
  cases value <;> simp [Prog.run, Except.map]

/-- A call that returns nil wrote once on top of the stored value exactly under the condition. -/
theorem wrote_once_iff {check : Check β}
    (hok : ((putJSONCAS register check).run effect inputs s).value = .ok ()) :
    WroteOnce check s (writes 0 ((putJSONCAS register check).run effect inputs s).events) ↔
      Clean check 5 inputs s := by
  rw [(run_tries check 5 none inputs s 0).clean_iff]
  constructor
  · intro h
    exact .inl ⟨hok, h⟩
  · rintro (⟨_, h⟩ | ⟨hne, _⟩)
    · exact h
    · exact absurd hok hne

omit [DecidableEq β] in
/-- Every value that a claim puts carries its nonce. -/
theorem nonce_of_claim_accept {now : Time} {prev : Option β} {next : β}
    (h : claimCheck c inc peer nonce ttl now prev = .accept next) :
    (c.record (some next)).nonce = nonce := by
  obtain ⟨_, rfl⟩ := claim_check_accept.mp h
  rw [c.record_marshal]

/-- A claim with a fresh nonce that returns an error leaves the stored value alone exactly under
the condition. -/
theorem claim_error_iff {e : Err} (hfresh : (c.record s.stored).nonce ≠ nonce)
    (herror : ((putJSONCAS register (claimCheck c inc peer nonce ttl)).run effect inputs s).value =
      .error e) :
    ((putJSONCAS register (claimCheck c inc peer nonce ttl)).run effect inputs s).state.stored =
        s.stored ↔
      Clean (claimCheck c inc peer nonce ttl) 5 inputs s := by
  have htries := run_tries (claimCheck c inc peer nonce ttl) 5 none inputs s 0
  have hne : (trace 0 ((casLoop register (claimCheck c inc peer nonce ttl) 5 none).run
      effect inputs s)).value ≠ .ok () := by
    intro hok
    exact nomatch herror.symm.trans hok
  rw [htries.clean_iff]
  constructor
  · intro hstored
    rcases htries.net_of_error hne with ⟨hwrites, _⟩ | ⟨now, prev, next, haccept, hnet⟩
    · exact .inr ⟨hne, hwrites⟩
    · -- the network holds a value of this claim, whose nonce is not the stored one
      refine absurd ?_ hfresh
      rw [← hstored]
      have hnext : Register.stored ((putJSONCAS register
          (claimCheck c inc peer nonce ttl)).run effect inputs s).state = some next := by
        unfold Register.stored
        rw [show ((putJSONCAS register (claimCheck c inc peer nonce ttl)).run
          effect inputs s).state.net = some next from hnet]
      rw [hnext]
      exact nonce_of_claim_accept haccept
  · rintro (⟨hok, _⟩ | ⟨_, hwrites⟩)
    · exact absurd hok hne
    · rw [show ((putJSONCAS register (claimCheck c inc peer nonce ttl)).run
        effect inputs s).state = s from htries.state_of_no_writes hwrites]

omit [DecidableEq β] in
/-- What a heartbeat puts is the decoded record with a later expiry and the next version. -/
theorem heartbeat_accept {now : Time} {prev : Option β} {next : β}
    (h : heartbeatCheck c inc peer nonce ttl now prev = .accept next) :
    ∃ data cur, prev = some data ∧ c.unmarshal data = (cur, none) ∧
      c.unmarshal next =
        ({ cur with expires := now + leaseTTL ttl, version := inc cur.version }, none) := by
  unfold heartbeatCheck ownerCheck at h
  split at h
  · exact nomatch h
  · next data =>
      split at h
      · exact nomatch h
      · split at h
        · exact nomatch h
        · next cur hcur =>
            split at h
            · exact nomatch h
            · refine ⟨data, cur, rfl, hcur, ?_⟩
              rw [← Verdict.accept.inj h, c.unmarshal_marshal]

/-- A failed claim does not hold the lease, and a call that returned nil wrote once on top of the
value stored when it started, exactly under the condition on the faults; a heartbeat that meets it
and returns nil has raised the version once. -/
theorem failed_claim_iff (c : Codec β TaskLease) (inc : Int → Int) (inputs : ℕ → Input)
    (s : Register β) :
    (∀ check : Check β, ((putJSONCAS register check).run effect inputs s).value = .ok () →
      (WroteOnce check s (writes 0 ((putJSONCAS register check).run effect inputs s).events) ↔
        Clean check 5 inputs s)) ∧
    (∀ peer nonce ttl, (c.record s.stored).nonce ≠ nonce →
      (((∀ e, ((claim register c inc peer nonce ttl).run effect inputs s).value = .error e →
          ((claim register c inc peer nonce ttl).run effect inputs s).state.stored = s.stored) ∧
        (∀ m, ((claim register c inc peer nonce ttl).run effect inputs s).value = .ok m →
          WroteOnce (claimCheck c inc peer nonce ttl) s
            (writes 0 ((claim register c inc peer nonce ttl).run effect inputs s).events))) ↔
        Clean (claimCheck c inc peer nonce ttl) 5 inputs s)) ∧
    (∀ peer nonce ttl,
      ((heartbeat register c inc peer nonce ttl).run effect inputs s).value = .ok () →
      Clean (heartbeatCheck c inc peer nonce ttl) 5 inputs s →
      ∃ data cur now next, s.stored = some data ∧ c.unmarshal data = (cur, none) ∧
        writes 0 ((heartbeat register c inc peer nonce ttl).run effect inputs s).events =
          [(now, next)] ∧
        c.unmarshal next =
          ({ cur with expires := now + leaseTTL ttl, version := inc cur.version }, none)) := by
  refine ⟨fun check hok => wrote_once_iff hok, ?_, ?_⟩
  · intro peer nonce ttl hfresh
    rw [claim_run]
    dsimp only
    cases hvalue : ((putJSONCAS register (claimCheck c inc peer nonce ttl)).run
        effect inputs s).value with
    | error e =>
        rw [← claim_error_iff hfresh hvalue]
        exact ⟨fun h => h.1 e rfl, fun h => ⟨fun _ _ => h, nofun⟩⟩
    | ok _ =>
        rw [← wrote_once_iff hvalue]
        exact ⟨fun h => h.2 nonce rfl, fun h => ⟨nofun, fun _ _ => h⟩⟩
  · intro peer nonce ttl hok hclean
    obtain ⟨now, next, hwrites, haccept⟩ := (wrote_once_iff hok).mpr hclean
    obtain ⟨data, cur, hstored, hcur, hnext⟩ := heartbeat_accept haccept
    exact ⟨data, cur, now, next, hstored, hcur, hwrites, hnext⟩

end Calls

/-! ## A claim that fails and holds the lease -/

namespace Sample

/-- The read that verifies the first put, the fifth step, times out. -/
def lostVerify (n : ℕ) : Input :=
  if n = 4 then { fault := some "context deadline exceeded" } else {}

end Sample

/-- A claim of a free lease under no faults. -/
theorem failed_claim_iff_reliable :
    Clean (claimCheck Sample.codec incr "a" "n" 0) 5 (fun _ => {}) ⟨none, none⟩ ∧
    WroteOnce (claimCheck Sample.codec incr "a" "n" 0) ⟨none, none⟩
      (writes 0 ((claim register Sample.codec incr "a" "n" 0).run effect
        (fun _ => {}) ⟨none, none⟩).events) := by
  have hclean : Clean (claimCheck Sample.codec incr "a" "n" 0) 5 (fun _ => {}) ⟨none, none⟩ :=
    ⟨rfl, .inl rfl⟩
  have hfresh : (Sample.codec.record (Register.stored ⟨none, none⟩)).nonce ≠ "n" := by decide
  have hsound := ((failed_claim_iff Sample.codec incr (fun _ => {}) ⟨none, none⟩).2.1
    "a" "n" 0 hfresh).mpr hclean
  exact ⟨hclean, hsound.2 "n" rfl⟩

/-- The claim returns `ErrLeaseBusy` because the second try meets the lease that the first one
wrote, and the stored lease is the caller's. -/
theorem busy_with_own_lease :
    ((claim register Sample.codec incr "a" "n" 0).run effect Sample.lostVerify
      ⟨none, none⟩).value = .error .leaseBusy ∧
    ((claim register Sample.codec incr "a" "n" 0).run effect Sample.lostVerify
      ⟨none, none⟩).state.stored = some (Sample.marshal ⟨"a", "n", 20000000000, 1⟩) := by
  exact ⟨rfl, rfl⟩

end MutualCloud.Dht
