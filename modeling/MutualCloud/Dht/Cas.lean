import MutualCloud.Library.Postcondition
import MutualCloud.Go.Integers
import MutualCloud.Go.Strings

/-!
# Compare-and-swap on one key of the DHT

`Node.PutJSONCAS` of `internal/dht/node.go`: up to five times it reads the value under the key,
asks a callback for the next value, puts that and reads it back. Reads fall back to a map in the
memory of the process, and so does a put that finds no peer. `casLoop` is written over any
environment that gives access to a key; `Register` is the environment with one key, in which a
get and a put are one atomic step each and every one of them may fail.
-/

namespace MutualCloud.Dht

open Go Interaction Labelled

/-- The errors of `PutJSONCAS` and of the callbacks that `internal/task/claim.go` gives it. -/
inductive Err where
  /-- `ErrCASConflict`. -/
  | casConflict
  /-- `ErrLeaseBusy`. -/
  | leaseBusy
  /-- `ErrLeaseStolen`. -/
  | leaseStolen
  /-- An error of `json.Unmarshal`. -/
  | json (text : String)
  /-- An error of `GetValue` or `PutValue`. -/
  | network (text : String)
  deriving DecidableEq, Repr

/-- What the callback `check` answers to the previous value: an error, `ok = false`, or the next
value. -/
inductive Verdict (β : Type) where
  | error (e : Err)
  | refuse
  | accept (next : β)
  deriving DecidableEq, Repr

/-- A callback, together with the reading of the clock that it takes first. -/
abbrev Check (β : Type) := Time → Option β → Verdict β

/-- The steps by which `PutJSONCAS` reaches its key: the network, the map `localStore` and the
clock. -/
structure KeyAccess (ι : Type) (ρ : ι → Type) (β : Type) where
  getValue : Prog ι ρ (Except String β)
  putValue : β → Prog ι ρ (Option String)
  loadLocal : Prog ι ρ (Option β)
  storeLocal : β → Prog ι ρ Unit
  timeNow : Prog ι ρ Time

/-- The error of a put on a node that knows no other node. -/
def noPeer (e : String) : Bool := contains e "failed to find any peer in table"

section Code

variable {ι : Type} {ρ : ι → Type} {β : Type} [DecidableEq β] (key : KeyAccess ι ρ β)

/-- The first step of a try: the value under the key, or nil. -/
def readPrev : Prog ι ρ (Option β) := do
  match ← key.getValue with
  | .ok val => pure (some val)
  | .error _ => key.loadLocal

/-- The last step of a try: read `next` back, else try again. -/
def verify (next : β) (retry : Err → Prog ι ρ (Except Err Unit)) :
    Prog ι ρ (Except Err Unit) := do
  match ← key.getValue with
  | .ok after => if after = next then pure (.ok ()) else retry .casConflict
  | .error e =>
      match ← key.loadLocal with
      | some after => if after = next then pure (.ok ()) else retry .casConflict
      | none => retry (.network e)

/-- The third step of a try: put `next`, and go on to verify it. -/
def putNext (next : β) (retry : Err → Prog ι ρ (Except Err Unit)) :
    Prog ι ρ (Except Err Unit) := do
  match ← key.putValue next with
  | none => verify key next retry
  | some e =>
      if noPeer e then do
        key.storeLocal next
        pure (.ok ())
      else retry (.network e)

/-- How a try goes on after the callback. -/
def follow (verdict : Verdict β) (retry : Err → Prog ι ρ (Except Err Unit)) :
    Prog ι ρ (Except Err Unit) :=
  match verdict with
  | .error e => pure (.error e)
  | .refuse => retry .casConflict
  | .accept next => putNext key next retry

/-- The second step of a try: ask the callback. -/
def decideNext (check : Check β) (prev : Option β) (retry : Err → Prog ι ρ (Except Err Unit)) :
    Prog ι ρ (Except Err Unit) := do
  let now ← key.timeNow
  follow key (check now prev) retry

/-- The loop of `PutJSONCAS` with `n` tries left, after the error `lastErr`. -/
def casLoop (check : Check β) : ℕ → Option Err → Prog ι ρ (Except Err Unit)
  | 0, lastErr => pure (.error (lastErr.getD .casConflict))
  | n + 1, _ => do
      let prev ← readPrev key
      decideNext key check prev fun e => casLoop check n (some e)

/-- `PutJSONCAS`. -/
def putJSONCAS (check : Check β) : Prog ι ρ (Except Err Unit) :=
  casLoop key check 5 none

end Code

/-! ## One key -/

variable {β : Type}

/-- The steps on the key. -/
inductive Op (β : Type) where
  | getValue
  | putValue (v : β)
  | loadLocal
  | storeLocal (v : β)
  | timeNow

/-- What a step returns. -/
abbrev Op.Response : Op β → Type
  | getValue => Except String β
  | putValue _ => Option String
  | loadLocal => Option β
  | storeLocal _ => Unit
  | timeNow => Time

/-- What is stored under the key, in the network and in `localStore`. -/
structure Register (β : Type) where
  net : Option β
  loc : Option β
  deriving DecidableEq

/-- The input of a step: the clock, which reads no time before Go's zero time, and the error of a
get or put that fails. -/
structure Input where
  now : ℕ := 0
  fault : Option String := none

/-- What `GetValue` returns. -/
def Register.get (s : Register β) (input : Input) : Except String β :=
  match input.fault, s.net with
  | some e, _ => .error e
  | none, some v => .ok v
  | none, none => .error "routing: not found"

/-- How the register answers a step. A put that fails writes nothing. -/
def effect : Effect (Op β) Op.Response Input (Register β)
  | .getValue, input, s => (s.get input, s)
  | .putValue v, input, s =>
      match input.fault with
      | some e => (some e, s)
      | none => (none, { s with net := some v })
  | .loadLocal, _, s => (s.loc, s)
  | .storeLocal v, _, s => ((), { s with loc := some v })
  | .timeNow, input, s => (input.now, s)

/-- The access to the key. -/
def register : KeyAccess (Op β) Op.Response β where
  getValue := Prog.perform Op.getValue
  putValue v := Prog.perform (Op.putValue v)
  loadLocal := Prog.perform Op.loadLocal
  storeLocal v := Prog.perform (Op.storeLocal v)
  timeNow := Prog.perform Op.timeNow

/-- A step with its input and response. -/
abbrev Event (β : Type) := Interaction.Event (Op β) Op.Response Input

/-- The readings of the clock in a history, oldest first. -/
def readings : List (Event β) → List Time
  | [] => []
  | ⟨.timeNow, _, now⟩ :: rest => now :: readings rest
  | _ :: rest => readings rest

/-- The values written in a history, each with the last reading of the clock before it. The
reading is `now` where the history starts. -/
def writes : Time → List (Event β) → List (Time × β)
  | _, [] => []
  | _, ⟨.timeNow, _, now⟩ :: rest => writes now rest
  | now, ⟨.putValue v, _, none⟩ :: rest => (now, v) :: writes now rest
  | now, ⟨.storeLocal v, _, _⟩ :: rest => (now, v) :: writes now rest
  | now, _ :: rest => writes now rest

/-! ## A call that runs alone -/

/-- The inputs from the `k`-th on. -/
def later (inputs : ℕ → Input) (k : ℕ) : ℕ → Input := fun n => inputs (n + k)

@[simp] theorem later_apply (inputs : ℕ → Input) (k n : ℕ) :
    later inputs k n = inputs (n + k) := rfl

@[simp] theorem later_later (inputs : ℕ → Input) (j k : ℕ) :
    later (later inputs j) k = later inputs (j + k) := by
  funext n
  rw [later_apply, later_apply, later_apply]
  congr 1
  omega

namespace Register

/-- The value that the first step of a try hands to the callback. -/
def prev (s : Register β) (input : Input) : Option β :=
  match s.get input with
  | .ok val => some val
  | .error _ => s.loc

/-- The number of steps that `readPrev` takes. -/
def prevSteps (s : Register β) (input : Input) : ℕ :=
  match s.get input with
  | .ok _ => 1
  | .error _ => 2

end Register

/-- What is left of a run: the value returned, the readings of the clock, the values written and
the final register. -/
structure Trace (β : Type) where
  value : Except Err Unit
  readings : List Time
  writes : List (Time × β)
  state : Register β

/-- What the tries of a call can come to, when nobody else writes. In each try the clock is the
step `k` after the read, the put is the step after it, and then comes the read that verifies. -/
inductive Tries (check : Check β) :
    ℕ → Option Err → (ℕ → Input) → Register β → Trace β → Prop where
  | exhausted {lastErr : Option Err} {inputs : ℕ → Input} {s : Register β} :
      Tries check 0 lastErr inputs s ⟨.error (lastErr.getD .casConflict), [], [], s⟩
  | failed {n k : ℕ} {lastErr : Option Err} {inputs : ℕ → Input} {s : Register β} {e : Err}
      (hsteps : k = s.prevSteps (inputs 0))
      (hcheck : check (inputs k).now (s.prev (inputs 0)) = .error e) :
      Tries check (n + 1) lastErr inputs s ⟨.error e, [(inputs k).now], [], s⟩
  | refused {n k : ℕ} {lastErr : Option Err} {inputs : ℕ → Input} {s : Register β} {t : Trace β}
      (hsteps : k = s.prevSteps (inputs 0))
      (hcheck : check (inputs k).now (s.prev (inputs 0)) = .refuse)
      (hrest : Tries check n (some .casConflict) (later inputs (k + 1)) s t) :
      Tries check (n + 1) lastErr inputs s { t with readings := (inputs k).now :: t.readings }
  | lost {n k : ℕ} {lastErr : Option Err} {inputs : ℕ → Input} {s : Register β} {next : β}
      {e : String} {t : Trace β} (hsteps : k = s.prevSteps (inputs 0))
      (hcheck : check (inputs k).now (s.prev (inputs 0)) = .accept next)
      (hput : (inputs (k + 1)).fault = some e) (hpeer : noPeer e = false)
      (hrest : Tries check n (some (.network e)) (later inputs (k + 2)) s t) :
      Tries check (n + 1) lastErr inputs s { t with readings := (inputs k).now :: t.readings }
  | kept {n k : ℕ} {lastErr : Option Err} {inputs : ℕ → Input} {s : Register β} {next : β}
      {e : String} (hsteps : k = s.prevSteps (inputs 0))
      (hcheck : check (inputs k).now (s.prev (inputs 0)) = .accept next)
      (hput : (inputs (k + 1)).fault = some e) (hpeer : noPeer e = true) :
      Tries check (n + 1) lastErr inputs s
        ⟨.ok (), [(inputs k).now], [((inputs k).now, next)], { s with loc := some next }⟩
  | verified {n k : ℕ} {lastErr : Option Err} {inputs : ℕ → Input} {s : Register β} {next : β}
      (hsteps : k = s.prevSteps (inputs 0))
      (hcheck : check (inputs k).now (s.prev (inputs 0)) = .accept next)
      (hput : (inputs (k + 1)).fault = none)
      (hverify : (inputs (k + 2)).fault = none ∨ s.loc = some next) :
      Tries check (n + 1) lastErr inputs s
        ⟨.ok (), [(inputs k).now], [((inputs k).now, next)], { s with net := some next }⟩
  | unverified {n k : ℕ} {lastErr : Option Err} {inputs : ℕ → Input} {s : Register β} {next : β}
      {err : Err} {t : Trace β} (hsteps : k = s.prevSteps (inputs 0))
      (hcheck : check (inputs k).now (s.prev (inputs 0)) = .accept next)
      (hput : (inputs (k + 1)).fault = none)
      (hverify : ¬ ((inputs (k + 2)).fault = none ∨ s.loc = some next))
      (hrest : Tries check n (some err) (later inputs (k + 4)) { s with net := some next } t) :
      Tries check (n + 1) lastErr inputs s { t with
        readings := (inputs k).now :: t.readings
        writes := ((inputs k).now, next) :: t.writes }

section Alone

/-- The trace of a run whose history starts at the reading `now`. -/
def trace (now : Time) (r : Prog.Run (Op β) Op.Response Input (Register β) (Except Err Unit)) :
    Trace β :=
  ⟨r.value, readings r.events, writes now r.events, r.state⟩

/-- The read of a try leaves no trace. -/
theorem trace_read_prev (f : Option β → Prog (Op β) Op.Response (Except Err Unit))
    (inputs : ℕ → Input) (s : Register β) (now : Time) :
    trace now ((readPrev register >>= f).run effect inputs s) =
      trace now ((f (s.prev (inputs 0))).run effect (later inputs (s.prevSteps (inputs 0))) s) := by
  simp only [readPrev, register, Prog.perform_bind, Prog.call_bind, Prog.run, effect,
    Register.prev, Register.prevSteps]
  cases s.get (inputs 0) <;> rfl

variable [DecidableEq β] {next : β} {retry : Err → Prog (Op β) Op.Response (Except Err Unit)}
  {inputs : ℕ → Input} {s : Register β} {now : Time}

/-- The callback is asked at the reading of the clock before it. -/
theorem trace_decide_next {check : Check β} {prev : Option β} :
    trace now ((decideNext register check prev retry).run effect inputs s) =
      let rest := trace (inputs 0).now
        ((follow register (check (inputs 0).now prev) retry).run effect (later inputs 1) s)
      { rest with readings := (inputs 0).now :: rest.readings } :=
  rfl

/-- A put that fails is tried again. -/
theorem trace_put_lost {e : String} (hput : (inputs 0).fault = some e)
    (hpeer : noPeer e = false) :
    trace now ((putNext register next retry).run effect inputs s) =
      trace now ((retry (.network e)).run effect (later inputs 1) s) := by
  simp only [putNext, register, Prog.perform_bind, Prog.run, effect, hput, hpeer]
  rfl

/-- A put that finds no peer writes to the map of the process. -/
theorem trace_put_kept {e : String} (hput : (inputs 0).fault = some e)
    (hpeer : noPeer e = true) :
    trace now ((putNext register next retry).run effect inputs s) =
      ⟨.ok (), [], [(now, next)], { s with loc := some next }⟩ := by
  simp only [putNext, register, Prog.perform_bind, Prog.run, effect, hput, hpeer]
  rfl

/-- A put that does not fail is verified. -/
theorem trace_put_done (hput : (inputs 0).fault = none) :
    trace now ((putNext register next retry).run effect inputs s) =
      let rest := trace now
        ((verify register next retry).run effect (later inputs 1) { s with net := some next })
      { rest with writes := (now, next) :: rest.writes } := by
  simp only [putNext, register, Prog.perform_bind, Prog.run, effect, hput]
  rfl

/-- The value put is read back. -/
theorem trace_verified (hnet : s.net = some next)
    (hverify : (inputs 0).fault = none ∨ s.loc = some next) :
    trace now ((verify register next retry).run effect inputs s) = ⟨.ok (), [], [], s⟩ := by
  simp only [verify, register, Prog.perform_bind, Prog.run, effect, Register.get, hnet]
  cases hfault : (inputs 0).fault with
  | none =>
      simp only [if_true]
      rfl
  | some e =>
      have hloc : s.loc = some next := by simpa [hfault] using hverify
      simp only [Prog.run, effect, hloc, if_true]
      rfl

/-- The read that verifies fails, and the value put is not in the map of the process either. -/
theorem trace_unverified (retry : Err → Prog (Op β) Op.Response (Except Err Unit)) (now : Time)
    (hverify : ¬ ((inputs 0).fault = none ∨ s.loc = some next)) :
    ∃ err, trace now ((verify register next retry).run effect inputs s) =
      trace now ((retry err).run effect (later inputs 2) s) := by
  simp only [verify, register, Prog.perform_bind, Prog.run, effect, Register.get]
  obtain ⟨hfault, hloc⟩ := not_or.mp hverify
  obtain ⟨e, he⟩ := Option.ne_none_iff_exists'.mp hfault
  cases hl : s.loc with
  | none =>
      simp only [he, Prog.run, effect, hl]
      exact ⟨.network e, rfl⟩
  | some after =>
      have hne : after ≠ next := fun h => hloc (h ▸ hl)
      simp only [he, Prog.run, effect, hl, if_neg hne]
      exact ⟨.casConflict, rfl⟩

/-- A call that runs alone is described by its tries. -/
theorem run_tries (check : Check β) (n : ℕ) (lastErr : Option Err) (inputs : ℕ → Input)
    (s : Register β) (now : Time) :
    Tries check n lastErr inputs s
      (trace now ((casLoop register check n lastErr).run effect inputs s)) := by
  induction n generalizing lastErr inputs s now with
  | zero => exact .exhausted
  | succ n ih =>
      rw [casLoop, trace_read_prev, trace_decide_next]
      generalize hsteps : s.prevSteps (inputs 0) = k
      simp only [later_apply, later_later, Nat.zero_add]
      cases hcheck : check (inputs k).now (s.prev (inputs 0)) with
      | error e => exact .failed hsteps.symm hcheck
      | refuse => exact .refused hsteps.symm hcheck (ih _ _ _ _)
      | accept next =>
          rw [follow]
          cases hput : (inputs (k + 1)).fault with
          | some e =>
              have hput' : (later inputs (k + 1) 0).fault = some e := by simpa using hput
              cases hpeer : noPeer e with
              | true =>
                  rw [trace_put_kept hput' hpeer]
                  exact .kept hsteps.symm hcheck hput hpeer
              | false =>
                  rw [trace_put_lost hput' hpeer, later_later]
                  exact .lost hsteps.symm hcheck hput hpeer (ih _ _ _ _)
          | none =>
              rw [trace_put_done (by simpa using hput), later_later]
              by_cases hverify : (inputs (k + 2)).fault = none ∨ s.loc = some next
              · rw [trace_verified rfl (by simpa using hverify)]
                exact .verified hsteps.symm hcheck hput hverify
              · have hverify' : ¬ ((later inputs (k + 2) 0).fault = none ∨
                    ({ s with net := some next } : Register β).loc = some next) := by
                  simpa using hverify
                obtain ⟨err, herr⟩ := trace_unverified
                  (fun e => casLoop register check n (some e)) (inputs k).now hverify'
                rw [herr, later_later]
                exact .unverified hsteps.symm hcheck hput hverify (ih _ _ _ _)

/-- No get and no put fails. -/
def Reliable (inputs : ℕ → Input) : Prop := ∀ n, (inputs n).fault = none

omit [DecidableEq β] in
/-- Without faults and with nothing in the map of the process, a try sees the register. -/
theorem prev_reliable {input : Input} (hfault : input.fault = none) (hloc : s.loc = none) :
    s.prev input = s.net := by
  unfold Register.prev Register.get
  rw [hfault, hloc]
  cases s.net <;> rfl

omit [DecidableEq β] in
/-- Without faults a call writes what its callback accepts at its last reading of the clock, and
returns an error when the callback does not accept there. -/
theorem Tries.reliable {check : Check β} {n : ℕ} {lastErr : Option Err} {t : Trace β}
    (h : Tries check n lastErr inputs s t) (hreliable : Reliable inputs) (hloc : s.loc = none) :
    (∃ (now : ℕ) (next : β), t.readings.getLast? = some (now : Time) ∧
      check now s.net = .accept next ∧ t.value = .ok () ∧
      t.state = { s with net := some next }) ∨
    (t.value ≠ .ok () ∧ t.state = s ∧
      ∀ now ∈ t.readings.getLast?, ∀ next, check now s.net ≠ .accept next) := by
  induction h with
  | exhausted => exact .inr ⟨nofun, rfl, nofun⟩
  | failed hsteps hcheck =>
      rw [prev_reliable (hreliable 0) hloc] at hcheck
      refine .inr ⟨nofun, rfl, ?_⟩
      simp [hcheck]
  | @refused n k lastErr inputs s t hsteps hcheck hrest ih =>
      rw [prev_reliable (hreliable 0) hloc] at hcheck
      obtain ⟨now, next, hlast, haccept⟩ | ⟨hvalue, hstate, hlast⟩ :=
        ih (fun m => hreliable (m + (k + 1))) hloc
      · refine .inl ⟨now, next, ?_, haccept⟩
        rw [List.getLast?_cons, hlast, Option.getD_some]
      · refine .inr ⟨hvalue, hstate, ?_⟩
        intro now hnow
        rw [List.getLast?_cons] at hnow
        cases hr : t.readings.getLast? with
        | none =>
            rw [hr] at hnow
            obtain rfl := Option.some.inj hnow
            simp [hcheck]
        | some last =>
            rw [hr] at hnow
            obtain rfl := Option.some.inj hnow
            exact hlast last hr
  | lost hsteps hcheck hput => exact nomatch (hreliable _).symm.trans hput
  | kept hsteps hcheck hput => exact nomatch (hreliable _).symm.trans hput
  | @verified n k lastErr inputs s next hsteps hcheck =>
      rw [prev_reliable (hreliable 0) hloc] at hcheck
      exact .inl ⟨(inputs k).now, next, rfl, hcheck, rfl, rfl⟩
  | unverified hsteps hcheck hput hverify => exact absurd (.inl (hreliable _)) hverify

/-- A call without faults, with nothing in the map of the process. -/
theorem put_json_cas_reliable (check : Check β) (hreliable : Reliable inputs)
    (hloc : s.loc = none) :
    let r := (putJSONCAS register check).run effect inputs s
    (∃ (now : ℕ) (next : β), (readings r.events).getLast? = some (now : Time) ∧
      check now s.net = .accept next ∧ r.value = .ok () ∧ r.state = { s with net := some next }) ∨
    (r.value ≠ .ok () ∧ r.state = s ∧
      ∀ now ∈ (readings r.events).getLast?, ∀ next, check now s.net ≠ .accept next) :=
  (run_tries check 5 none inputs s 0).reliable hreliable hloc

/-- Without faults, a callback that accepts every value is answered at the first try. -/
theorem ensures_put_json_cas {check : Check β}
    (haccept : ∀ now prev, ∃ next, check now prev = .accept next) :
    (putJSONCAS register check).Ensures effect (fun input => input.fault = none) s
      fun result _ => result = .ok () := by
  have hread : (readPrev (register : KeyAccess (Op β) Op.Response β)).Ensures effect
      (fun input => input.fault = none) s fun _ _ => True := by
    intro input _
    show Prog.Ensures effect _ (match s.get input with
      | .ok val => _
      | .error _ => _) s _
    cases s.get input with
    | ok val => trivial
    | error e => exact fun _ _ => trivial
  refine Prog.ensures_bind (hread.mono ?_)
  intro prev s' _ input _
  obtain ⟨next, hnext⟩ := haccept input.now prev
  show (follow register (check (input.now : Time) prev) fun e =>
    casLoop register check 4 (some e)).Ensures effect (fun input => input.fault = none) s'
      fun result _ => result = .ok ()
  rw [hnext]
  intro put hput
  have hanswer : effect (.putValue next) put s' = (none, { s' with net := some next }) := by
    simp only [effect, hput]
  rw [hanswer]
  intro get hget
  have hback : effect .getValue get { s' with net := some next } =
      (.ok next, { s' with net := some next }) := by
    simp only [effect, Register.get, hget]
  rw [hback]
  show Prog.Ensures effect _ (if next = next then _ else _) _ _
  rw [if_pos rfl]
  exact rfl

end Alone

end MutualCloud.Dht
