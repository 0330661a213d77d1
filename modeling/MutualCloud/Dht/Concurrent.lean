import MutualCloud.Dht.Lease

/-!
# `PutJSONCAS` among other calls

Any number of calls on one key, every one of whose gets and puts is one atomic step that does not
fail. A call reads, decides, puts and verifies in separate steps, so another call's put can fall
between its read and its put, or between its put and the read that verifies it. `Isolated` is the
condition on a schedule that excludes both. `cas_of_isolated` says that then the calls that
returned nil took effect one after another; `two_claims_hold` is a schedule without it, in which
two claims of one lease return nil.
-/

namespace MutualCloud.Dht

open Go Interaction Labelled
open Control (TaskLease)

section Schedule

variable {β τ : Type}

/-- A step on the network. -/
def accesses (e : Event β) : Bool :=
  match e.call with
  | .getValue | .putValue _ => true
  | .loadLocal | .storeLocal _ | .timeNow => false

/-- A put. -/
def puts (e : Event β) : Bool :=
  match e.call with
  | .putValue _ => true
  | _ => false

/-- No other put falls between a put and the step on the network that its call made before it, or
the one that its call makes after it. -/
def Isolated (history : List (τ × Event β)) : Prop :=
  ∀ before i e between f after, history = before ++ (i, e) :: (between ++ (i, f) :: after) →
    accesses e → accesses f → (∀ l ∈ between, l.1 = i → accesses l.2 = false) →
    puts e ∨ puts f → ∀ l ∈ between, puts l.2 = false

/-- The prefixes of an isolated schedule are isolated. -/
theorem Isolated.of_append {history later : List (τ × Event β)}
    (h : Isolated (history ++ later)) : Isolated history := by
  rintro before i e between f after rfl
  exact h before i e between f (after ++ later) (by simp)

/-- A put is a step on the network. -/
theorem accesses_of_puts {e : Event β} (h : puts e) : accesses e := by
  revert h
  unfold puts accesses
  cases e.call <;> simp

/-- Calls one after another are isolated. -/
theorem isolated_of_sorted [PartialOrder τ] {history : List (τ × Event β)}
    (h : (history.map Prod.fst).Pairwise (· ≤ ·)) : Isolated history := by
  rintro before i e between f after rfl - - hquiet - l hl
  have hpairs := List.pairwise_map.mp h
  have hfirst := (List.pairwise_append.mp hpairs).2.1
  have hlast := (List.pairwise_append.mp hfirst.of_cons).2.2
  have hsame : l.1 = i := le_antisymm (hlast l hl (i, f) (by simp))
    (List.rel_of_pairwise_cons hfirst (List.mem_append_left _ hl))
  by_contra hput
  exact nomatch (hquiet l hl hsame).symm.trans (accesses_of_puts (Bool.not_eq_false _ ▸ hput))

/-- Call `i` took the clock and read `now`. -/
def ReadAt (history : List (τ × Event β)) (i : τ) (now : Time) : Prop :=
  ∃ input : Input, now = input.now ∧
    (i, (⟨.timeNow, input, (input.now : Time)⟩ : Event β)) ∈ history

/-- What was read stays read. -/
theorem ReadAt.snoc {history : List (τ × Event β)} {i : τ} {now : Time} (h : ReadAt history i now)
    (l : τ × Event β) : ReadAt (history ++ [l]) i now := by
  obtain ⟨input, hnow, hmem⟩ := h
  exact ⟨input, hnow, List.mem_append_left _ hmem⟩

/-- The last step of call `i` on the network, a put if `written`, left `v` in the register unless
somebody has put since. -/
def Since (i : τ) (history : List (τ × Event β)) (written : Bool) (v : Option β)
    (s : Register β) : Prop :=
  ∃ before e between, history = before ++ (i, e) :: between ∧ accesses e ∧
    (written → puts e) ∧ (∀ l ∈ between, l.1 = i → accesses l.2 = false) ∧
    ((∀ l ∈ between, puts l.2 = false) → s.net = v)

namespace Since

variable {i : τ} {history : List (τ × Event β)} {written : Bool} {v : Option β} {s s' : Register β}

/-- The last step of the history. -/
theorem last {e : Event β} (haccess : accesses e) (hput : written → puts e) (hnet : s.net = v) :
    Since i (history ++ [(i, e)]) written v s :=
  ⟨history, e, [], rfl, haccess, hput, nofun, fun _ => hnet⟩

/-- Steps of others, and steps off the network, are steps since. -/
theorem extend {l : τ × Event β} (h : Since i history written v s)
    (hother : l.1 = i → accesses l.2 = false) (hnet : puts l.2 = false → s'.net = s.net) :
    Since i (history ++ [l]) written v s' := by
  obtain ⟨before, e, between, rfl, haccess, hput, hquiet, hvalue⟩ := h
  refine ⟨before, e, between ++ [l], by simp, haccess, hput, ?_, ?_⟩
  · intro x hx
    rcases List.mem_append.mp hx with hx | hx
    · exact hquiet x hx
    · rw [List.mem_singleton.mp hx]
      exact hother
  · intro hputs
    rw [hnet (hputs l (by simp))]
    exact hvalue fun x hx => hputs x (by simp [hx])

/-- In an isolated schedule the register still holds the value when the call puts, and when it
verifies what it put. -/
theorem undisturbed {e : Event β} (h : Since i history written v s)
    (hiso : Isolated (history ++ [(i, e)])) (haccess : accesses e) (hput : written ∨ puts e) :
    s.net = v := by
  obtain ⟨before, f, between, rfl, hf, hwritten, hquiet, hvalue⟩ := h
  refine hvalue (hiso before i f between e [] (by simp) hf haccess hquiet ?_)
  exact hput.imp_left hwritten

end Since

end Schedule

variable {β τ : Type} [DecidableEq β] [DecidableEq τ]

/-- Calls on one key, all at their start. -/
def calls (check : τ → Check β) (s : Register β) :
    Pool τ (Op β) Op.Response (Register β) (Except Err Unit) :=
  ⟨s, fun i => putJSONCAS register (check i)⟩

/-- A callback takes effect at a reading of the clock. -/
def Applies (check : τ → Check β) (v : Option β) (l : τ × Time) (v' : Option β) : Prop :=
  ∃ next, check l.1 l.2 v = .accept next ∧ v' = some next

/-- The register is the result of applying, in the given order, the callbacks of calls that put,
each once and at a reading of its clock. They include every call that returned nil, and when all
have ended they are the calls that returned nil. -/
structure Serial (check : τ → Check β) (start : Register β) (history : List (τ × Event β))
    (p : Pool τ (Op β) Op.Response (Register β) (Except Err Unit)) (order : List (τ × Time)) :
    Prop where
  once : (order.map Prod.fst).Nodup
  applied : Execution (Applies check) start.net order p.shared.net
  read : ∀ l ∈ order, ReadAt history l.1 l.2
  complete : ∀ i, p.thread i = .done (.ok ()) → i ∈ order.map Prod.fst
  sound : p.Quiescent → ∀ i ∈ order.map Prod.fst, p.thread i = .done (.ok ())

/-! ## Where a call stands -/

/-- The points between the steps of a call, with `n` more tries after the present one. -/
inductive Stage (β : Type) where
  | reading (n : ℕ) (lastErr : Option Err)
  | loading (n : ℕ)
  | asking (n : ℕ) (prev : Option β)
  | putting (n : ℕ) (now : Time) (prev : Option β) (next : β)
  | verifying (n : ℕ) (next : β)
  | ended (result : Except Err Unit)

namespace Stage

/-- The rest of the call. -/
def code (check : Check β) : Stage β → Prog (Op β) Op.Response (Except Err Unit)
  | reading n lastErr => casLoop register check n lastErr
  | loading n => .call .loadLocal fun prev =>
      decideNext register check prev fun e => casLoop register check n (some e)
  | asking n prev => decideNext register check prev fun e => casLoop register check n (some e)
  | putting n _ _ next => putNext register next fun e => casLoop register check n (some e)
  | verifying n next => verify register next fun e => casLoop register check n (some e)
  | ended result => .done result

/-- The call has put, and has returned nil or is about to. -/
def committed : Stage β → Bool
  | verifying _ _ | ended (.ok _) => true
  | _ => false

omit [DecidableEq τ] in
/-- A call that has ended has put exactly if it returned nil. -/
theorem committed_iff_of_done {check : Check β} {stage : Stage β} {result : Except Err Unit}
    (h : stage.code check = .done result) : stage.committed ↔ result = .ok () := by
  cases stage with
  | reading n lastErr =>
      cases n with
      | zero =>
          obtain rfl := Prog.done.inj h
          exact iff_of_false nofun nofun
      | succ n => exact nomatch h
  | loading | asking | putting | verifying => exact nomatch h
  | ended r =>
      obtain rfl := Prog.done.inj h
      cases r with
      | error e => exact iff_of_false nofun nofun
      | ok _ => exact iff_of_true rfl rfl

/-- What the call knows about the register. -/
def Fact (check : Check β) (i : τ) (history : List (τ × Event β)) (s : Register β) :
    Stage β → Prop
  | reading _ _ | ended _ => True
  | loading _ => Since i history false none s
  | asking _ prev => Since i history false prev s
  | putting _ now prev next =>
      check now prev = .accept next ∧ ReadAt history i now ∧ Since i history false prev s
  | verifying _ next => Since i history true (some next) s

omit [DecidableEq β] [DecidableEq τ] in
/-- What a call knows stays true when others step. -/
theorem Fact.extend {check : Check β} {i : τ} {history : List (τ × Event β)} {s s' : Register β}
    {stage : Stage β} {l : τ × Event β} (h : stage.Fact check i history s)
    (hother : l.1 = i → accesses l.2 = false) (hnet : puts l.2 = false → s'.net = s.net) :
    stage.Fact check i (history ++ [l]) s' := by
  cases stage with
  | reading | ended => trivial
  | loading | asking | verifying => exact Since.extend h hother hnet
  | putting n now prev next =>
      obtain ⟨hcheck, hread, hsince⟩ := h
      exact ⟨hcheck, hread.snoc l, hsince.extend hother hnet⟩

end Stage

/-- The steps of a call over a register without faults, as long as the call reads back what it
has put. -/
inductive Move (check : Check β) (s : Register β) :
    Stage β → Event β → Stage β → Register β → Prop where
  | found {n : ℕ} {lastErr : Option Err} {input : Input} {v : β} (hnet : s.net = some v) :
      Move check s (.reading (n + 1) lastErr) ⟨.getValue, input, .ok v⟩ (.asking n (some v)) s
  | absent {n : ℕ} {lastErr : Option Err} {input : Input} {e : String} (hnet : s.net = none) :
      Move check s (.reading (n + 1) lastErr) ⟨.getValue, input, .error e⟩ (.loading n) s
  | loaded {n : ℕ} {input : Input} :
      Move check s (.loading n) ⟨.loadLocal, input, none⟩ (.asking n none) s
  | failed {n : ℕ} {prev : Option β} {input : Input} {e : Err}
      (hcheck : check input.now prev = .error e) :
      Move check s (.asking n prev) ⟨.timeNow, input, (input.now : Time)⟩ (.ended (.error e)) s
  | refused {n : ℕ} {prev : Option β} {input : Input} (hcheck : check input.now prev = .refuse) :
      Move check s (.asking n prev) ⟨.timeNow, input, (input.now : Time)⟩
        (.reading n (some .casConflict)) s
  | accepted {n : ℕ} {prev : Option β} {input : Input} {next : β}
      (hcheck : check input.now prev = .accept next) :
      Move check s (.asking n prev) ⟨.timeNow, input, (input.now : Time)⟩
        (.putting n input.now prev next) s
  | put {n : ℕ} {now : Time} {prev : Option β} {next : β} {input : Input} :
      Move check s (.putting n now prev next) ⟨.putValue next, input, none⟩ (.verifying n next)
        { s with net := some next }
  | verified {n : ℕ} {next : β} {input : Input} (hnet : s.net = some next) :
      Move check s (.verifying n next) ⟨.getValue, input, .ok next⟩ (.ended (.ok ())) s

/-- A step of a call is one of these moves. -/
theorem move_of_call {check : Check β} {s s' : Register β} {stage : Stage β} {e : Event β}
    {k : e.call.Response → Prog (Op β) Op.Response (Except Err Unit)}
    (hcall : stage.code check = .call e.call k) (hanswer : Answers effect s e s')
    (hfault : e.input.fault = none) (hloc : s.loc = none)
    (hverify : ∀ n next, stage = .verifying n next → accesses e → s.net = some next) :
    ∃ stage', Move check s stage e stage' s' ∧ k e.response = stage'.code check := by
  obtain ⟨call, input, response⟩ := e
  dsimp only at k hcall hfault
  cases stage with
  | ended result => exact nomatch hcall
  | reading n lastErr =>
      cases n with
      | zero => exact nomatch hcall
      | succ n =>
          injection hcall with hc hk
          subst hc
          obtain rfl := eq_of_heq hk
          have hresponse : effect Op.getValue input s = (response, s') := hanswer
          simp only [effect, Register.get, hfault] at hresponse
          cases hnet : s.net with
          | none =>
              rw [hnet] at hresponse
              obtain ⟨rfl, rfl⟩ := Prod.mk.inj hresponse
              exact ⟨_, .absent hnet, rfl⟩
          | some v =>
              rw [hnet] at hresponse
              obtain ⟨rfl, rfl⟩ := Prod.mk.inj hresponse
              exact ⟨_, .found hnet, rfl⟩
  | loading n =>
      cases hcall
      obtain ⟨rfl, rfl⟩ : s.loc = response ∧ s = s' := Prod.mk.inj hanswer
      rw [hloc]
      exact ⟨_, .loaded, rfl⟩
  | asking n prev =>
      cases hcall
      obtain ⟨rfl, rfl⟩ : (input.now : Time) = response ∧ s = s' := Prod.mk.inj hanswer
      have hfollow : ∀ verdict, check input.now prev = verdict →
          follow register (check input.now prev) (fun e => casLoop register check n (some e)) =
            follow register verdict (fun e => casLoop register check n (some e)) := by
        intro verdict hcheck
        rw [hcheck]
      cases hcheck : check input.now prev with
      | error e => exact ⟨_, .failed hcheck, hfollow _ hcheck⟩
      | refuse => exact ⟨_, .refused hcheck, hfollow _ hcheck⟩
      | accept next => exact ⟨_, .accepted hcheck, hfollow _ hcheck⟩
  | putting n now prev next =>
      cases hcall
      have hresponse : effect (Op.putValue next) input s = (response, s') := hanswer
      simp only [effect, hfault] at hresponse
      obtain ⟨rfl, rfl⟩ := Prod.mk.inj hresponse
      exact ⟨_, .put, rfl⟩
  | verifying n next =>
      cases hcall
      have hnet := hverify n next rfl rfl
      have hresponse : effect Op.getValue input s = (response, s') := hanswer
      simp only [effect, Register.get, hfault, hnet] at hresponse
      obtain ⟨rfl, rfl⟩ := Prod.mk.inj hresponse
      refine ⟨_, .verified hnet, ?_⟩
      show (if next = next then Prog.done (.ok ()) else casLoop register check n _) = _
      rw [if_pos rfl]
      rfl

/-- Every call stands at some stage, and the register is that of the calls that have put, in the
order of their puts. -/
structure Staged (check : τ → Check β) (start : Register β) (history : List (τ × Event β))
    (p : Pool τ (Op β) Op.Response (Register β) (Except Err Unit)) (stage : τ → Stage β)
    (order : List (τ × Time)) : Prop where
  thread : ∀ i, p.thread i = (stage i).code (check i)
  fact : ∀ i, (stage i).Fact (check i) i history p.shared
  loc : p.shared.loc = none
  once : (order.map Prod.fst).Nodup
  applied : Execution (Applies check) start.net order p.shared.net
  read : ∀ l ∈ order, ReadAt history l.1 l.2
  committed : ∀ i, i ∈ order.map Prod.fst ↔ (stage i).committed

namespace Staged

variable {check : τ → Check β} {start : Register β} {history : List (τ × Event β)}
  {p p' : Pool τ (Op β) Op.Response (Register β) (Except Err Unit)} {stage : τ → Stage β}
  {order : List (τ × Time)}

omit [DecidableEq τ] in
/-- At the start all calls are about to read. -/
theorem initial (hloc : start.loc = none) :
    Staged check start [] (calls check start) (fun _ => .reading 5 none) [] where
  thread _ := rfl
  fact _ := trivial
  loc := hloc
  once := .nil
  applied := .refl
  read := nofun
  committed _ := by simp [Stage.committed]

/-- Call `i` goes to the stage `next`, and the others stay where they are. -/
theorem code_update {thread : τ → Prog (Op β) Op.Response (Except Err Unit)}
    (h : ∀ j, thread j = (stage j).code (check j)) (i : τ) (next : Stage β) (j : τ) :
    Function.update thread i (next.code (check i)) j =
      (Function.update stage i next j).code (check j) := by
  by_cases hj : j = i
  · subst hj
    simp
  · simp [Function.update_of_ne hj, h j]

/-- Call `i` takes a step that is not a put and goes to the stage `next`. -/
theorem move (h : Staged check start history p stage order) {i : τ} {e : Event β}
    {next : Stage β} (hshared : p'.shared = p.shared)
    (hthread : p'.thread = Function.update p.thread i (next.code (check i)))
    (hcommitted : next.committed = (stage i).committed)
    (hfact : next.Fact (check i) i (history ++ [(i, e)]) p.shared) :
    Staged check start (history ++ [(i, e)]) p' (Function.update stage i next) order where
  thread j := by rw [hthread]; exact code_update h.thread i next j
  fact j := by
    rw [hshared]
    by_cases hj : j = i
    · subst hj
      simpa using hfact
    · rw [Function.update_of_ne hj]
      exact (h.fact j).extend (fun hi => absurd hi.symm hj) fun _ => rfl
  loc := by rw [hshared, h.loc]
  once := h.once
  applied := by rw [hshared]; exact h.applied
  read l hl := (h.read l hl).snoc (i, e)
  committed j := by
    rw [h.committed j]
    by_cases hj : j = i
    · subst hj
      simp [hcommitted]
    · rw [Function.update_of_ne hj]

/-- Call `i` puts. -/
theorem put (h : Staged check start history p stage order) {i : τ} {e : Event β} {n : ℕ}
    {now : Time} {prev : Option β} {next : β} (hstage : stage i = .putting n now prev next)
    (he : puts e) (hnet : p.shared.net = prev) (hshared : p'.shared = ⟨some next, none⟩)
    (hthread : p'.thread =
      Function.update p.thread i ((Stage.verifying n next).code (check i))) :
    Staged check start (history ++ [(i, e)]) p' (Function.update stage i (.verifying n next))
      (order ++ [(i, now)]) := by
  have haccess := accesses_of_puts he
  have hfact := h.fact i
  rw [hstage] at hfact
  obtain ⟨hcheck, hread, hsince⟩ := hfact
  have hnot : i ∉ order.map Prod.fst := by
    rw [h.committed i, hstage]
    exact Bool.false_ne_true
  refine ⟨?_, ?_, ?_, ?_, ?_, ?_, ?_⟩
  · intro j
    rw [hthread]
    exact code_update h.thread i (.verifying n next) j
  · intro j
    by_cases hj : j = i
    · subst hj
      rw [Function.update_self, hshared]
      exact Since.last haccess (fun _ => he) rfl
    · rw [Function.update_of_ne hj]
      exact (h.fact j).extend (fun hi => absurd hi.symm hj) fun hf => by simp [he] at hf
  · rw [hshared]
  · rw [List.map_append, List.map_singleton, List.nodup_append]
    refine ⟨h.once, List.nodup_singleton _, ?_⟩
    rintro j hj _ hi rfl
    rw [List.mem_singleton.mp hi] at hj
    exact hnot hj
  · refine h.applied.snoc ⟨next, ?_, ?_⟩
    · rw [hnet]
      exact hcheck
    · rw [hshared]
  · intro l hl
    rcases List.mem_append.mp hl with hl | hl
    · exact (h.read l hl).snoc (i, e)
    · rw [List.mem_singleton.mp hl]
      exact hread.snoc (i, e)
  · intro j
    rw [List.map_append, List.mem_append, h.committed j]
    by_cases hj : j = i
    · subst hj
      simp [Stage.committed]
    · simp [hj]

/-- Every step of an isolated schedule without faults leads from stage to stage. -/
theorem step (h : Staged check start history p stage order) {l : τ × Event β}
    (hstep : Pool.Step effect p l p') (hfault : l.2.input.fault = none)
    (hiso : Isolated (history ++ [l])) :
    ∃ stage' order', Staged check start (history ++ [l]) p' stage' order' := by
  obtain ⟨i, e⟩ := l
  obtain ⟨k, hcall, hanswer, hthread⟩ := hstep
  rw [h.thread i] at hcall
  have hfact := h.fact i
  have hverify : ∀ n next, stage i = .verifying n next → accesses e → p.shared.net = some next := by
    intro n next hstage haccess
    rw [hstage] at hfact
    exact Since.undisturbed hfact hiso haccess (.inl rfl)
  obtain ⟨stage', hmove, hcode⟩ := move_of_call hcall hanswer hfault h.loc hverify
  rw [hcode] at hthread
  generalize hstage : stage i = now at hmove
  generalize hshared : p'.shared = s' at hmove
  rw [hstage] at hfact
  cases hmove with
  | found hnet =>
      exact ⟨_, _, h.move hshared hthread (by rw [hstage]; rfl) (Since.last rfl nofun hnet)⟩
  | absent hnet =>
      exact ⟨_, _, h.move hshared hthread (by rw [hstage]; rfl) (Since.last rfl nofun hnet)⟩
  | loaded =>
      exact ⟨_, _, h.move hshared hthread (by rw [hstage]; rfl)
        (Since.extend hfact (fun _ => rfl) fun _ => rfl)⟩
  | failed | refused =>
      exact ⟨_, _, h.move hshared hthread (by rw [hstage]; rfl) trivial⟩
  | @accepted n prev input next hcheck =>
      refine ⟨_, _, h.move hshared hthread (by rw [hstage]; rfl) ⟨hcheck, ⟨input, rfl, ?_⟩, ?_⟩⟩
      · exact List.mem_append_right _ (List.mem_singleton_self _)
      · exact Since.extend hfact (fun _ => rfl) fun _ => rfl
  | put =>
      have hnet := hfact.2.2.undisturbed hiso rfl (.inr rfl)
      rw [h.loc] at hshared
      exact ⟨_, _, h.put hstage rfl hnet hshared hthread⟩
  | verified hnet =>
      exact ⟨_, _, h.move hshared hthread (by rw [hstage]; rfl) trivial⟩

/-- An isolated schedule without faults leads from stage to stage. -/
theorem run (hrun : Execution (Pool.Step effect) (calls check start) history p)
    (hreliable : ∀ l ∈ history, l.2.input.fault = none) (hloc : start.loc = none)
    (hiso : Isolated history) : ∃ stage order, Staged check start history p stage order := by
  induction hrun with
  | refl => exact ⟨_, _, initial hloc⟩
  | @snoc before middle finish label _ hstep ih =>
      obtain ⟨stage, order, h⟩ := ih (fun l hl => hreliable l (by simp [hl])) hiso.of_append
      exact h.step hstep (hreliable label (by simp)) hiso

omit [DecidableEq τ] in
/-- The order of the puts serialises the calls. -/
theorem serial (h : Staged check start history p stage order) :
    Serial check start history p order where
  once := h.once
  applied := h.applied
  read := h.read
  complete i hi := by
    rw [h.thread i] at hi
    exact (h.committed i).mpr ((Stage.committed_iff_of_done hi).mpr rfl)
  sound hquiet i hi := by
    obtain ⟨result, hdone⟩ := hquiet i
    rw [hdone]
    rw [h.thread i] at hdone
    rw [(Stage.committed_iff_of_done hdone).mp ((h.committed i).mp hi)]

end Staged

/-! ## Claims and index updates -/

namespace Serial

variable {start : Register β} {history : List (τ × Event β)}
  {p : Pool τ (Op β) Op.Response (Register β) (Except Err Unit)} {order : List (τ × Time)}
  {inc : Int → Int}

omit [DecidableEq β] [DecidableEq τ] in
/-- No claim takes effect on the lease of another that has not expired. -/
theorem claim_not_after_claim {c : Codec β TaskLease} {peer nonce : τ → String}
    {ttl : τ → Duration} {v v' v'' : Option β} {x y : τ × Time} (hpeer : peer x.1 ≠ "")
    (hread : ReadAt history x.1 x.2) (hwindow : y.2 < x.2 + leaseTTL (ttl x.1))
    (hx : Applies (fun i => claimCheck c inc (peer i) (nonce i) (ttl i)) v x v')
    (hy : Applies (fun i => claimCheck c inc (peer i) (nonce i) (ttl i)) v' y v'') : False := by
  obtain ⟨next, hfirst, rfl⟩ := hx
  obtain ⟨_, hsecond, _⟩ := hy
  obtain ⟨_, rfl⟩ := claim_check_accept.mp hfirst
  obtain ⟨hfree, _⟩ := claim_check_accept.mp hsecond
  rw [c.record_marshal] at hfree
  refine hfree ⟨hpeer, ?_, hwindow⟩
  obtain ⟨input, hnow, _⟩ := hread
  rw [hnow]
  exact (expires_pos _ _).ne'

omit [DecidableEq β] [DecidableEq τ] in
/-- Of claims that all run within the time of a lease at most one returns nil. -/
theorem claims_exclusive {c : Codec β TaskLease} {peer nonce : τ → String} {ttl : τ → Duration}
    (h : Serial (fun i => claimCheck c inc (peer i) (nonce i) (ttl i)) start history p order)
    (hpeer : ∀ i, peer i ≠ "")
    (hwindow : ∀ i now j now', ReadAt history i now → ReadAt history j now' →
      now' < now + leaseTTL (ttl i)) {i j : τ} (hi : p.thread i = .done (.ok ()))
    (hj : p.thread j = .done (.ok ())) : i = j := by
  have himem := h.complete i hi
  have hjmem := h.complete j hj
  match order, h with
  | [], _ => exact nomatch himem
  | [x], _ =>
      rw [List.map_singleton, List.mem_singleton] at himem hjmem
      rw [himem, hjmem]
  | x :: y :: rest, h =>
      obtain ⟨v, hx, hrest⟩ := h.applied.of_cons
      obtain ⟨_, hy, _⟩ := hrest.of_cons
      have hread := h.read x (by simp)
      exact (claim_not_after_claim (hpeer _) hread (hwindow _ _ _ _ hread (h.read y (by simp)))
        hx hy).elim

omit [DecidableEq β] [DecidableEq τ] in
/-- An index update adds its id and keeps the others. -/
theorem index_applies {c : Codec β TaskIndex} {id : τ → String} {now : τ → Time}
    {v v' : Option β} {x : τ × Time}
    (h : Applies (fun i => indexCheck c inc (id i) (now i)) v x v') :
    ∀ a, a ∈ (c.index v').ids ↔ a ∈ (c.index v).ids ∨ a = id x.1 := by
  obtain ⟨next, haccept, rfl⟩ := h
  obtain rfl := Verdict.accept.inj haccept
  intro a
  rw [c.index_marshal]
  by_cases hmem : id x.1 ∈ (c.index v).ids
  · simp only [if_pos hmem]
    exact ⟨.inl, fun ha => ha.elim (fun ha => ha) fun ha => ha ▸ hmem⟩
  · simp [if_neg hmem]

omit [DecidableEq β] [DecidableEq τ] in
/-- An id whose index update returned nil is in the index. -/
theorem index_kept {c : Codec β TaskIndex} {id : τ → String} {now : τ → Time}
    (h : Serial (fun i => indexCheck c inc (id i) (now i)) start history p order) {i : τ}
    (hi : p.thread i = .done (.ok ())) : id i ∈ (c.index p.shared.net).ids := by
  obtain ⟨x, hx, rfl⟩ := List.mem_map.mp (h.complete i hi)
  obtain ⟨before, later, rfl⟩ := List.append_of_mem hx
  obtain ⟨v, v', _, hstep, hlater⟩ := h.applied.split_at
  refine hlater.invariant (I := fun v => id x.1 ∈ (c.index v).ids) ?_ ?_
  · exact (index_applies hstep _).mpr (.inr rfl)
  · intro v y v' hv hy
    exact (index_applies hy _).mpr (.inl hv)

end Serial

/-- In every isolated schedule the calls that returned nil took effect one after another. So of
claims within the time of a lease at most one returns a nonce, and no id whose index update
returned nil is lost. -/
theorem cas_of_isolated {check : τ → Check β} {start : Register β}
    {history : List (τ × Event β)}
    {p : Pool τ (Op β) Op.Response (Register β) (Except Err Unit)}
    (hrun : Execution (Pool.Step effect) (calls check start) history p)
    (hreliable : ∀ l ∈ history, l.2.input.fault = none) (hloc : start.loc = none)
    (hiso : Isolated history) :
    (∃ order, Serial check start history p order) ∧
    (∀ (c : Codec β TaskLease) (inc : Int → Int) (peer nonce : τ → String) (ttl : τ → Duration),
      check = (fun i => claimCheck c inc (peer i) (nonce i) (ttl i)) → (∀ i, peer i ≠ "") →
      (∀ i now j now', ReadAt history i now → ReadAt history j now' →
        now' < now + leaseTTL (ttl i)) →
      ∀ i j, p.thread i = .done (.ok ()) → p.thread j = .done (.ok ()) → i = j) ∧
    (∀ (c : Codec β TaskIndex) (inc : Int → Int) (id : τ → String) (now : τ → Time),
      check = (fun i => indexCheck c inc (id i) (now i)) →
      ∀ i, p.thread i = .done (.ok ()) → id i ∈ (c.index p.shared.net).ids) := by
  obtain ⟨stage, order, hstaged⟩ := Staged.run hrun hreliable hloc hiso
  have hserial := hstaged.serial
  refine ⟨⟨order, hserial⟩, ?_, ?_⟩
  · intro c inc peer nonce ttl hcheck hpeer hwindow i j hi hj
    subst hcheck
    exact hserial.claims_exclusive hpeer hwindow hi hj
  · intro c inc id now hcheck i hi
    subst hcheck
    exact hserial.index_kept hi

/-! ## Two claims -/

namespace Sample

/-- The callbacks of claims by two peers. -/
def rivals (b : Bool) : Check Doc :=
  claimCheck codec incr (if b then "b" else "a") (if b then "m" else "n") 0

/-- The two claims run by turns. -/
def byTurns (turns : List Bool) :
    List (Bool × Event Doc) × Pool Bool (Op Doc) Op.Response (Register Doc) (Except Err Unit) :=
  Pool.schedule effect (turns.map fun b => (b, {})) (calls rivals ⟨none, none⟩)

/-- One claim after the other. -/
def inTurn : List Bool := [false, false, false, false, false, true, true]

/-- Both claims read before either puts, and the first verifies before the second puts. -/
def crossed : List Bool :=
  [false, false, false, true, true, true, false, false, true, true]

/-- The inputs of the two claims: no faults, and the clock at zero. -/
theorem by_turns_input (turns : List Bool) : ∀ l ∈ (byTurns turns).1, l.2.input = {} := by
  intro l hl
  obtain ⟨b, _, hb⟩ := List.mem_map.mp (Pool.schedule_inputs _ _ _ l hl)
  exact (congrArg Prod.snd hb).symm

/-- The two claims run within the time of a lease. -/
theorem by_turns_window (turns : List Bool) (i : Bool) (now : Time) (j : Bool) (now' : Time)
    (h : ReadAt (byTurns turns).1 i now) (h' : ReadAt (byTurns turns).1 j now') :
    now' < now + leaseTTL 0 := by
  obtain ⟨input, rfl, hmem⟩ := h
  obtain ⟨input', rfl, hmem'⟩ := h'
  rw [show input = {} from by_turns_input turns _ hmem,
    show input' = {} from by_turns_input turns _ hmem']
  decide

end Sample

/-- One claim after the other: the first returns nil, and it alone. -/
theorem cas_of_isolated_in_turn :
    (Sample.byTurns Sample.inTurn).2.thread false = .done (.ok ()) ∧
    ∃ order, Serial Sample.rivals ⟨none, none⟩ (Sample.byTurns Sample.inTurn).1
      (Sample.byTurns Sample.inTurn).2 order := by
  have hsorted : ((Sample.byTurns Sample.inTurn).1.map Prod.fst).Pairwise (· ≤ ·) := by decide
  exact ⟨rfl, (cas_of_isolated (Pool.schedule_execution _ _ _)
    (fun l hl => by rw [Sample.by_turns_input _ l hl]) rfl (isolated_of_sorted hsorted)).1⟩

/-- Two claims of a free lease both return nil, and no order of them explains the register. -/
theorem two_claims_hold :
    Execution (Pool.Step effect) (calls Sample.rivals ⟨none, none⟩)
      (Sample.byTurns Sample.crossed).1 (Sample.byTurns Sample.crossed).2 ∧
    (∀ l ∈ (Sample.byTurns Sample.crossed).1, l.2.input.fault = none) ∧
    (∀ b, (Sample.byTurns Sample.crossed).2.thread b = .done (.ok ())) ∧
    ¬ ∃ order, Serial Sample.rivals ⟨none, none⟩ (Sample.byTurns Sample.crossed).1
      (Sample.byTurns Sample.crossed).2 order := by
  have hdone : ∀ b, (Sample.byTurns Sample.crossed).2.thread b = .done (.ok ()) := by
    intro b
    cases b <;> rfl
  refine ⟨Pool.schedule_execution _ _ _, ?_, hdone, ?_⟩
  · intro l hl
    rw [Sample.by_turns_input _ l hl]
  · rintro ⟨order, hserial⟩
    have hpeer : ∀ b : Bool, (if b then "b" else "a") ≠ "" := by decide
    exact nomatch hserial.claims_exclusive hpeer (Sample.by_turns_window Sample.crossed)
      (hdone false) (hdone true)

end MutualCloud.Dht
