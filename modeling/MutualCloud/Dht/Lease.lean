import MutualCloud.Dht.Callbacks

/-!
# The lease record of a task in the DHT

`LeaseStep` is the automaton that `Claim`, `Heartbeat` and `Release` implement, on the decoded
record alone: `Step.lease_step` says that a call which runs alone over a register without faults
is one step of it, and `lease_automaton` reads the properties of whole sequences of calls off it.
-/

namespace MutualCloud.Dht

open Go Interaction Labelled
open Control (TaskLease)

/-! ## Calls one after another -/

/-- A call on the lease of one task. -/
inductive LeaseCall where
  | claim (peer nonce : String) (ttl : Duration)
  | heartbeat (peer nonce : String) (ttl : Duration)
  | release (peer nonce : String)
  deriving DecidableEq

namespace LeaseCall

/-- The peer that makes the call. -/
def peer : LeaseCall → String
  | claim peer _ _ | heartbeat peer _ _ | release peer _ => peer

/-- The nonce of the call: the fresh one of a claim, else the one presented. -/
def nonce : LeaseCall → String
  | claim _ nonce _ | heartbeat _ nonce _ | release _ nonce => nonce

/-- The call is a claim. -/
def isClaim : LeaseCall → Bool
  | claim _ _ _ => true
  | _ => false

/-- The call is a release. -/
def isRelease : LeaseCall → Bool
  | release _ _ => true
  | _ => false

end LeaseCall

/-- A call that has ended: its last reading of the clock, its result, and the record after it. -/
structure CallEvent where
  call : LeaseCall
  now : Time
  result : Except Err Unit
  after : TaskLease

namespace CallEvent

/-- The call returned no error. -/
def succeeded (e : CallEvent) : Bool := e.result.isOk

theorem succeeded_iff {e : CallEvent} : e.succeeded = true ↔ e.result = .ok () := by
  obtain ⟨call, now, result, after⟩ := e
  cases result with
  | error err => exact iff_of_false nofun nofun
  | ok _ => exact iff_of_true rfl rfl

/-- The call succeeded and wrote a lease for the peer and nonce of `first`. -/
def renews (first e : CallEvent) : Bool :=
  e.succeeded && e.call.peer = first.call.peer && e.call.nonce = first.call.nonce

theorem renews_of_eq {first e : CallEvent} (hok : e.succeeded)
    (hpeer : e.call.peer = first.call.peer) (hnonce : e.call.nonce = first.call.nonce) :
    first.renews e = true := by
  simp [renews, hok, hpeer, hnonce]

theorem renews_of_ne {first e : CallEvent} (hnonce : e.call.nonce ≠ first.call.nonce) :
    first.renews e = false := by
  simp [renews, hnonce]

end CallEvent

/-- The record does not belong to the peer and nonce of the call. -/
def Foreign (cur : TaskLease) (call : LeaseCall) : Prop :=
  ¬ (cur.owner = call.peer ∧ cur.nonce = call.nonce)

/-- The automaton of the lease record. -/
inductive LeaseStep : TaskLease → CallEvent → TaskLease → Prop where
  | claimed {cur new : TaskLease} {peer nonce : String} {ttl : Duration} {now : ℕ}
      (hfree : ¬ Live cur now)
      (hnew : new = ⟨peer, nonce, now + leaseTTL ttl, cur.version + 1⟩) :
      LeaseStep cur ⟨.claim peer nonce ttl, now, .ok (), new⟩ new
  | renewed {cur new : TaskLease} {peer nonce : String} {ttl : Duration} {now : ℕ}
      (howner : cur.owner = peer) (hnonce : cur.nonce = nonce)
      (hnew : new = ⟨peer, nonce, now + leaseTTL ttl, cur.version + 1⟩) :
      LeaseStep cur ⟨.heartbeat peer nonce ttl, now, .ok (), new⟩ new
  | released {cur new : TaskLease} {peer nonce : String} {now : ℕ}
      (howner : cur.owner = peer) (hnonce : cur.nonce = nonce)
      (hnew : new = ⟨"", "", 0, cur.version + 1⟩) :
      LeaseStep cur ⟨.release peer nonce, now, .ok (), new⟩ new
  | refused {cur : TaskLease} {call : LeaseCall} {now : Time} {result : Except Err Unit}
      (hresult : result ≠ .ok ()) (hforeign : call.isClaim = false → Foreign cur call) :
      LeaseStep cur ⟨call, now, result, cur⟩ cur

/-! ## The automaton -/

namespace LeaseStep

variable {cur new : TaskLease} {e : CallEvent}

/-- The event carries the record after the step. -/
theorem after_eq (h : LeaseStep cur e new) : e.after = new := by
  cases h <;> rfl

/-- A call that fails keeps the record, and one that succeeds raises the version by one. -/
theorem version (h : LeaseStep cur e new) :
    (e.result = .ok () ∧ new.version = cur.version + 1) ∨ (e.result ≠ .ok () ∧ new = cur) := by
  cases h with
  | claimed _ hnew | renewed _ _ hnew | released _ _ hnew =>
      rw [hnew]
      exact .inl ⟨rfl, rfl⟩
  | refused hresult => exact .inr ⟨hresult, rfl⟩

/-- Heartbeats and releases succeed exactly for the owner. -/
theorem owner (h : LeaseStep cur e new) (hcall : e.call.isClaim = false) :
    e.result = .ok () ↔ cur.owner = e.call.peer ∧ cur.nonce = e.call.nonce := by
  cases h with
  | claimed => exact nomatch hcall
  | renewed howner hnonce | released howner hnonce =>
      exact iff_of_true rfl ⟨howner, hnonce⟩
  | refused hresult hforeign => exact iff_of_false hresult (hforeign hcall)

end LeaseStep

/-- No version in the history is above the present one. -/
theorem version_le {cur fin : TaskLease} {history : List CallEvent}
    (h : Execution LeaseStep cur history fin) :
    ∀ e ∈ history, e.after.version ≤ fin.version := by
  induction h with
  | refl => exact List.forall_mem_nil _
  | @snoc before middle finish label _ hstep ih =>
      have hle : middle.version ≤ finish.version := by
        rcases hstep.version with ⟨_, hv⟩ | ⟨_, rfl⟩ <;> omega
      intro e he
      rcases List.mem_append.mp he with he | he
      · exact (ih e he).trans hle
      · rw [List.mem_singleton.mp he, hstep.after_eq]

/-- The versions that successful claims write increase. -/
theorem claim_versions {cur fin : TaskLease} {history : List CallEvent}
    (h : Execution LeaseStep cur history fin) :
    ((history.filter fun e => e.succeeded && e.call.isClaim).map (·.after.version)).Pairwise
      (· < ·) := by
  induction h with
  | refl => exact .nil
  | @snoc before middle finish label hbefore hstep ih =>
      rw [List.filter_append, List.map_append, List.pairwise_append]
      refine ⟨ih, ?_, ?_⟩
      · exact (List.pairwise_singleton _ label.after.version).sublist
          ((List.filter_sublist).map _)
      · intro v hv w hw
        obtain ⟨e, he, rfl⟩ := List.mem_map.mp hv
        obtain ⟨l, hl, rfl⟩ := List.mem_map.mp hw
        obtain ⟨hmem, hok⟩ := List.mem_filter.mp hl
        obtain rfl := List.mem_singleton.mp hmem
        have hle := version_le hbefore e (List.mem_filter.mp he).1
        have hsuccess : l.result = .ok () := by
          rw [Bool.and_eq_true] at hok
          exact CallEvent.succeeded_iff.mp hok.1
        rcases hstep.version with ⟨_, hv⟩ | ⟨hne, _⟩
        · rw [hstep.after_eq]
          omega
        · exact absurd hsuccess hne

/-- Either the lease is still that of `first`, as `last` renewed it, or a claim in the history came
after that renewal expired. -/
def HeldOrExpired (first last : CallEvent) (history : List CallEvent) (cur : TaskLease) : Prop :=
  0 < last.after.expires ∧
    ((cur.owner = first.call.peer ∧ cur.nonce = first.call.nonce ∧
        cur.expires = last.after.expires) ∨
      (cur.nonce ≠ first.call.nonce ∧ ∃ e ∈ history, last.after.expires ≤ e.now))

namespace LeaseStep

variable {cur new : TaskLease} {e : CallEvent}

/-- A claim that succeeds finds the lease free. -/
theorem free_of_claim (h : LeaseStep cur e new) (hok : e.succeeded) (hclaim : e.call.isClaim) :
    ¬ Live cur e.now := by
  cases h with
  | claimed hfree => exact hfree
  | renewed | released => exact nomatch hclaim
  | refused hresult => exact absurd (CallEvent.succeeded_iff.mp hok) hresult

/-- After a claim that succeeds the lease is held. -/
theorem held_of_claim (h : LeaseStep cur e new) (hok : e.succeeded) (hclaim : e.call.isClaim) :
    HeldOrExpired e e [] e.after := by
  cases h with
  | @claimed _ peer nonce ttl now hfree hnew =>
      subst hnew
      refine ⟨?_, .inl ⟨rfl, rfl, rfl⟩⟩
      exact expires_pos now ttl
  | renewed | released => exact nomatch hclaim
  | refused hresult => exact absurd (CallEvent.succeeded_iff.mp hok) hresult

end LeaseStep

/-- A step that does not release the lease keeps the alternative. -/
theorem HeldOrExpired.step {first last e : CallEvent} {history : List CallEvent}
    {cur new : TaskLease} (h : HeldOrExpired first last history cur) (hstep : LeaseStep cur e new)
    (hpeer : first.call.peer ≠ "") (hfresh : e.call.isClaim → e.call.nonce ≠ first.call.nonce)
    (hkept : e.succeeded → e.call.isRelease = false) :
    HeldOrExpired first (if first.renews e then e else last) (history ++ [e]) new := by
  obtain ⟨hpos, halt⟩ := h
  cases hstep with
  | @claimed _ peer nonce ttl now hfree hnew =>
      -- the nonce of a claim is fresh, so the claim does not renew the lease of `first`
      have hne : nonce ≠ first.call.nonce := hfresh rfl
      have hskip : first.renews ⟨.claim peer nonce ttl, now, .ok (), new⟩ = false :=
        CallEvent.renews_of_ne hne
      rw [hskip]
      refine ⟨hpos, .inr ⟨by rw [hnew]; exact hne, ?_⟩⟩
      rcases halt with ⟨ho, _, hx⟩ | ⟨_, e, he, hexpired⟩
      · refine ⟨_, List.mem_append_right _ (List.mem_singleton_self _), ?_⟩
        by_contra hlt
        exact hfree ⟨ho ▸ hpeer, hx ▸ hpos.ne', hx ▸ not_le.mp hlt⟩
      · exact ⟨e, List.mem_append_left _ he, hexpired⟩
  | @renewed _ peer nonce ttl now ho hn hnew =>
      rcases halt with ⟨ho', hn', _⟩ | ⟨hne, e, he, hexpired⟩
      · have hrenew : first.renews ⟨.heartbeat peer nonce ttl, now, .ok (), new⟩ = true :=
          CallEvent.renews_of_eq rfl (ho.symm.trans ho') (hn.symm.trans hn')
        rw [hrenew]
        refine ⟨?_, .inl ⟨?_, ?_, rfl⟩⟩
        · show 0 < new.expires
          rw [hnew]
          exact expires_pos now ttl
        · rw [hnew, ← ho, ho']
        · rw [hnew, ← hn, hn']
      · have hskip : first.renews ⟨.heartbeat peer nonce ttl, now, .ok (), new⟩ = false :=
          CallEvent.renews_of_ne (hn ▸ hne)
        rw [hskip]
        refine ⟨hpos, .inr ⟨?_, e, List.mem_append_left _ he, hexpired⟩⟩
        rw [hnew, ← hn]
        exact hne
  | released => exact nomatch hkept rfl
  | @refused call now result hresult =>
      have hskip : first.renews ⟨call, now, result, cur⟩ = false := by
        cases result with
        | error err => rfl
        | ok _ => exact absurd rfl hresult
      rw [hskip]
      refine ⟨hpos, halt.imp_right ?_⟩
      rintro ⟨hne, e, he, hexpired⟩
      exact ⟨hne, e, List.mem_append_left _ he, hexpired⟩

/-- While nobody releases the lease of `first`, it is renewed or expires. -/
theorem held_or_expired {first last : CallEvent} {fin : TaskLease} {between : List CallEvent}
    (h : Execution LeaseStep first.after between fin)
    (hfirst : HeldOrExpired first first [] first.after) (hok : first.succeeded)
    (hpeer : first.call.peer ≠ "")
    (hfresh : ∀ e ∈ between, e.call.isClaim → e.call.nonce ≠ first.call.nonce)
    (hkept : ∀ e ∈ between, e.succeeded → e.call.isRelease = false)
    (hlast : ((first :: between).filter first.renews).getLast? = some last) :
    HeldOrExpired first last between fin := by
  induction h generalizing last with
  | refl =>
      have hself : first.renews first = true := by simp [CallEvent.renews, hok]
      obtain rfl : first = last := by simpa [hself] using hlast
      exact hfirst
  | @snoc before middle finish label _ hstep ih =>
      have hmem : label ∈ before ++ [label] := by simp
      have hself : first.renews first = true := by simp [CallEvent.renews, hok]
      obtain ⟨prev, hprev⟩ :
          ∃ prev, ((first :: before).filter first.renews).getLast? = some prev := by
        rw [List.filter_cons_of_pos hself, List.getLast?_cons]
        exact ⟨_, rfl⟩
      have hih := ih (fun e he => hfresh e (by simp [he])) (fun e he => hkept e (by simp [he]))
        hprev
      have hnext := hih.step hstep hpeer (hfresh label hmem) (hkept label hmem)
      rw [← List.cons_append, List.filter_append, List.filter_singleton] at hlast
      cases hrenew : first.renews label with
      | true =>
          rw [hrenew] at hlast hnext
          obtain rfl : label = last := by simpa using hlast
          exact hnext
      | false =>
          rw [hrenew] at hlast hnext
          obtain rfl : prev = last := by simpa [hprev] using hlast
          exact hnext

section Sequential

variable {β : Type} [DecidableEq β] (c : Codec β TaskLease)

namespace LeaseCall

/-- The program of a call on the register, with the version as an unbounded integer. -/
def code : LeaseCall → Prog (Op β) Op.Response (Except Err Unit)
  | claim peer nonce ttl => do
      match ← Dht.claim register c (· + 1) peer nonce ttl with
      | .error e => pure (.error e)
      | .ok _ => pure (.ok ())
  | heartbeat peer nonce ttl => Dht.heartbeat register c (· + 1) peer nonce ttl
  | release peer nonce => Dht.release register c (· + 1) peer nonce

/-- The callback of a call. -/
def check : LeaseCall → Check β
  | claim peer nonce ttl => claimCheck c (· + 1) peer nonce ttl
  | heartbeat peer nonce ttl => heartbeatCheck c (· + 1) peer nonce ttl
  | release peer nonce => releaseCheck c (· + 1) peer nonce

end LeaseCall

/-- A call runs alone and without faults. -/
def Step (s : Register β) (e : CallEvent) (s' : Register β) : Prop :=
  ∃ inputs, Reliable inputs ∧
    ((e.call.code c).run effect inputs s).value = e.result ∧
    ((e.call.code c).run effect inputs s).state = s' ∧
    (readings ((e.call.code c).run effect inputs s).events).getLast? = some e.now ∧
    c.record s'.net = e.after

variable {c}

/-- A call is one `PutJSONCAS` with its callback. -/
theorem LeaseCall.code_eq (call : LeaseCall) :
    call.code c = putJSONCAS register (call.check c) := by
  cases call with
  | claim peer nonce ttl =>
      rw [code, Dht.claim, Prog.bind_assoc]
      refine Prog.bind_eq_self ?_ _
      intro result
      cases result <;> rfl
  | heartbeat | release => rfl

omit [DecidableEq β] in
/-- What a callback accepts is a step of the automaton. -/
theorem LeaseCall.accepted {call : LeaseCall} {now : ℕ} {prev : Option β} {next : β}
    (haccept : call.check c now prev = .accept next) (hdec : c.Decodable prev)
    (hpeer : call.peer ≠ "") :
    LeaseStep (c.record prev) ⟨call, now, .ok (), c.record (some next)⟩ (c.record (some next)) ∧
      c.Decodable (some next) := by
  cases call with
  | claim peer nonce ttl =>
      have hcheck : claimCheck c (· + 1) peer nonce ttl now prev = .accept next := haccept
      obtain ⟨hfree, rfl⟩ := claim_check_accept.mp hcheck
      exact ⟨.claimed hfree (c.record_marshal _), c.decodable_marshal _⟩
  | heartbeat peer nonce ttl =>
      have hcheck : heartbeatCheck c (· + 1) peer nonce ttl now prev = .accept next := haccept
      obtain ⟨howner, hnonce, rfl⟩ := (owner_check_accept hdec hpeer).mp hcheck
      refine ⟨.renewed howner hnonce ?_, c.decodable_marshal _⟩
      rw [c.record_marshal, howner, hnonce]
      rfl
  | release peer nonce =>
      have hcheck : releaseCheck c (· + 1) peer nonce now prev = .accept next := haccept
      obtain ⟨howner, hnonce, rfl⟩ := (owner_check_accept hdec hpeer).mp hcheck
      exact ⟨.released howner hnonce (c.record_marshal _), c.decodable_marshal _⟩

omit [DecidableEq β] in
/-- A record that belongs to the peer and nonce of a heartbeat or release is not refused. -/
theorem LeaseCall.foreign {call : LeaseCall} {now : Time} {prev : Option β}
    (hrefuse : ∀ next, call.check c now prev ≠ .accept next) (hdec : c.Decodable prev)
    (hpeer : call.peer ≠ "") (hcall : call.isClaim = false) : Foreign (c.record prev) call := by
  rintro ⟨howner, hnonce⟩
  cases call with
  | claim peer nonce ttl => exact nomatch hcall
  | heartbeat peer nonce ttl =>
      have hcheck : heartbeatCheck c (· + 1) peer nonce ttl now prev = .accept _ :=
        (owner_check_accept hdec hpeer).mpr ⟨howner, hnonce, rfl⟩
      exact hrefuse _ hcheck
  | release peer nonce =>
      have hcheck : releaseCheck c (· + 1) peer nonce now prev = .accept _ :=
        (owner_check_accept hdec hpeer).mpr ⟨howner, hnonce, rfl⟩
      exact hrefuse _ hcheck

/-- A call that runs alone over a register without faults is a step of the automaton, and a call
that fails leaves the register as it was. -/
theorem Step.lease_step {s s' : Register β} {e : CallEvent} (h : Step c s e s')
    (hloc : s.loc = none) (hdec : c.Decodable s.net) (hpeer : e.call.peer ≠ "") :
    LeaseStep (c.record s.net) e (c.record s'.net) ∧ s'.loc = none ∧ c.Decodable s'.net ∧
      (e.result ≠ .ok () → s' = s) := by
  obtain ⟨call, now, result, after⟩ := e
  obtain ⟨inputs, hreliable, hresult, hfinish, hnow, hafter⟩ := h
  dsimp only at hresult hfinish hnow hafter hpeer ⊢
  rw [LeaseCall.code_eq] at hresult hfinish hnow
  obtain ⟨clock, next, hlast, haccept, hvalue, hstate⟩ | ⟨hvalue, hstate, hlast⟩ :=
    put_json_cas_reliable (call.check c) hreliable hloc
  · obtain rfl : s' = { s with net := some next } := hfinish.symm.trans hstate
    obtain rfl : result = .ok () := hresult.symm.trans hvalue
    obtain rfl : now = clock := Option.some.inj (hnow.symm.trans hlast)
    obtain rfl : c.record (some next) = after := hafter
    obtain ⟨hstep, hnext⟩ := LeaseCall.accepted haccept hdec hpeer
    exact ⟨hstep, hloc, hnext, nofun⟩
  · obtain rfl : s' = s := hfinish.symm.trans hstate
    obtain rfl : c.record s'.net = after := hafter
    have hne : result ≠ .ok () := by
      rw [← hresult]
      exact hvalue
    exact ⟨.refused hne (LeaseCall.foreign (hlast now hnow) hdec hpeer), hloc, hdec, fun _ => rfl⟩

/-- A sequence of calls runs the automaton on the record. -/
theorem lease_execution {start finish : Register β} {history : List CallEvent}
    (h : Execution (Step c) start history finish) (hloc : start.loc = none)
    (hdec : c.Decodable start.net) (hpeers : ∀ e ∈ history, e.call.peer ≠ "") :
    Execution LeaseStep (c.record start.net) history (c.record finish.net) ∧
      finish.loc = none ∧ c.Decodable finish.net := by
  induction h with
  | refl => exact ⟨.refl, hloc, hdec⟩
  | @snoc before middle finish label _ hstep ih =>
      obtain ⟨hrun, hmloc, hmdec⟩ := ih fun e he => hpeers e (by simp [he])
      obtain ⟨hlease, hfloc, hfdec, _⟩ := hstep.lease_step hmloc hmdec (hpeers label (by simp))
      exact ⟨hrun.snoc hlease, hfloc, hfdec⟩

/-- The automaton of the lease record, for every sequence of calls: a call that succeeds raises
the version by one and one that fails changes nothing, heartbeats and releases succeed exactly
for the owner, the versions that claims write increase, and between two claims without a release
the lease of the first runs out. -/
theorem lease_automaton {start finish : Register β} {history : List CallEvent}
    (hrun : Execution (Step c) start history finish) (hloc : start.loc = none)
    (hstart : c.Decodable start.net) (hpeers : ∀ e ∈ history, e.call.peer ≠ "")
    (hclock : (history.map (·.now)).Pairwise (· ≤ ·))
    (hfresh : ((history.filter (·.call.isClaim)).map (·.call.nonce)).Nodup) :
    (∀ (before : List CallEvent) (e : CallEvent) (later : List CallEvent) (s s' : Register β),
      history = before ++ e :: later → Execution (Step c) start before s → Step c s e s' →
      (e.result = .ok () → (c.record s'.net).version = (c.record s.net).version + 1) ∧
      (e.result ≠ .ok () → s' = s) ∧
      (e.call.isClaim = false →
        (e.result = .ok () ↔
          (c.record s.net).owner = e.call.peer ∧ (c.record s.net).nonce = e.call.nonce))) ∧
    ((history.filter fun e => e.succeeded && e.call.isClaim).map (·.after.version)).Pairwise
      (· < ·) ∧
    (∀ (before : List CallEvent) (first : CallEvent) (between : List CallEvent)
      (second : CallEvent) (later : List CallEvent),
      history = before ++ first :: (between ++ second :: later) →
      first.succeeded → first.call.isClaim → second.succeeded → second.call.isClaim →
      (∀ e ∈ between, e.succeeded → e.call.isRelease = false) →
      ∀ last : CallEvent, ((first :: between).filter first.renews).getLast? = some last →
        last.after.expires ≤ second.now) := by
  refine ⟨?_, claim_versions (lease_execution hrun hloc hstart hpeers).1, ?_⟩
  · rintro before e later s s' rfl hbefore hstep
    obtain ⟨_, hsloc, hsdec⟩ := lease_execution hbefore hloc hstart fun x hx =>
      hpeers x (by simp [hx])
    obtain ⟨hlease, _, _, hfail⟩ := hstep.lease_step hsloc hsdec (hpeers e (by simp))
    refine ⟨?_, hfail, fun hcall => hlease.owner hcall⟩
    intro hok
    rcases hlease.version with ⟨_, hv⟩ | ⟨hne, _⟩
    · exact hv
    · exact absurd hok hne
  · rintro before first between second later rfl hok₁ hclaim₁ hok₂ hclaim₂ hkept last hlast
    have hexec := (lease_execution hrun hloc hstart hpeers).1
    obtain ⟨cur, new, _, hfirst, hrest⟩ := hexec.split_at
    obtain ⟨held, _, hbetween, hsecond, _⟩ := hrest.split_at
    obtain rfl : first.after = new := hfirst.after_eq
    have hnonces : ∀ e ∈ between, e.call.isClaim → e.call.nonce ≠ first.call.nonce := by
      intro e he hclaim
      have hpairs := List.pairwise_filter.mp (List.pairwise_map.mp hfresh)
      have hfirsts := (List.pairwise_append.mp hpairs).2.1
      exact (List.rel_of_pairwise_cons hfirsts (List.mem_append_left _ he) hclaim₁ hclaim).symm
    have htimes : ∀ e ∈ between, e.now ≤ second.now := by
      intro e he
      have hpairs := (List.pairwise_append.mp (List.pairwise_map.mp hclock)).2.1.of_cons
      exact (List.pairwise_append.mp hpairs).2.2 e he second (by simp)
    have hpeer := hpeers first (by simp)
    obtain ⟨hpos, ⟨ho, _, hx⟩ | ⟨_, e, he, hexpired⟩⟩ :=
      held_or_expired hbetween (hfirst.held_of_claim hok₁ hclaim₁) hok₁ hpeer hnonces hkept hlast
    · by_contra hlt
      refine hsecond.free_of_claim hok₂ hclaim₂ ⟨ho ▸ hpeer, hx ▸ hpos.ne', hx ▸ not_le.mp hlt⟩
    · exact hexpired.trans (htimes e he)

end Sequential

/-! ## A sample run -/

namespace Sample

/-- A value in a JSON object. -/
inductive Scalar where
  | string (s : String)
  | number (n : Int)
  deriving DecidableEq

/-- A JSON text: the empty one, or an object. -/
inductive Doc where
  | empty
  | object (fields : List (String × Scalar))
  deriving DecidableEq

/-- The object of a lease. -/
def marshal (l : TaskLease) : Doc :=
  .object [("owner", .string l.owner), ("nonce", .string l.nonce),
    ("expires", .number l.expires), ("version", .number l.version)]

/-- The lease of an object. -/
def unmarshal : Doc → TaskLease × Option String
  | .object [] => (default, none)
  | .object [("owner", .string owner), ("nonce", .string nonce), ("expires", .number expires),
      ("version", .number version)] => (⟨owner, nonce, expires, version⟩, none)
  | .object _ => (default, some "json: cannot unmarshal")
  | .empty => (default, some "unexpected end of JSON input")

/-- The encoding of leases as objects. -/
def codec : Codec Doc TaskLease where
  marshal := marshal
  unmarshal := unmarshal
  isEmpty doc := doc = .empty
  unmarshal_marshal _ := rfl
  marshal_nonempty _ := rfl

/-- A claim of a free lease. -/
def firstClaim : CallEvent :=
  ⟨.claim "a" "n" 0, 0, .ok (), ⟨"a", "n", 20000000000, 1⟩⟩

/-- A claim at the moment at which the first lease expires. -/
def secondClaim : CallEvent :=
  ⟨.claim "b" "m" 0, 20000000000, .ok (), ⟨"b", "m", 40000000000, 2⟩⟩

/-- The two claims, one after the other. -/
theorem two_claims :
    Execution (Step codec) ⟨none, none⟩ [firstClaim, secondClaim]
      ⟨some (marshal secondClaim.after), none⟩ := by
  have hfirst : Step codec ⟨none, none⟩ firstClaim ⟨some (marshal firstClaim.after), none⟩ :=
    ⟨fun _ => { now := 0 }, fun _ => rfl, by decide, by decide, by decide, by decide⟩
  have hsecond : Step codec ⟨some (marshal firstClaim.after), none⟩ secondClaim
      ⟨some (marshal secondClaim.after), none⟩ :=
    ⟨fun _ => { now := 20000000000 }, fun _ => rfl, by decide, by decide, by decide, by decide⟩
  exact (Execution.single hfirst).snoc hsecond

end Sample

/-- The automaton in the sample run. -/
theorem lease_automaton_two_claims :
    Execution (Step Sample.codec) ⟨none, none⟩ [Sample.firstClaim, Sample.secondClaim]
      ⟨some (Sample.marshal Sample.secondClaim.after), none⟩ ∧
    Sample.firstClaim.after.expires ≤ Sample.secondClaim.now := by
  have hdec : Sample.codec.Decodable none := nofun
  have hautomaton := lease_automaton Sample.two_claims rfl hdec (by decide) (by decide) (by decide)
  exact ⟨Sample.two_claims,
    hautomaton.2.2 [] Sample.firstClaim [] Sample.secondClaim [] rfl rfl rfl rfl rfl
      (List.forall_mem_nil _) Sample.firstClaim rfl⟩

end MutualCloud.Dht
