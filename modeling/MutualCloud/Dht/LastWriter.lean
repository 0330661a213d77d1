import MutualCloud.Dht.Concurrent

/-!
# What overlapping calls of `PutJSONCAS` keep

Without `Isolated` several calls on one key may return nil and all but one of their values be
lost. What is left is said here of every schedule without faults: the call that put last reads
its own value back. So once all calls have ended, the value under the key is that of a call that
returned nil, or nobody has put at all. `claims_settle` is what this means for a lease: it names
a claim that returned its nonce, and a free lease is taken by somebody.

The carrying invariant is `Led`. Read `Turn` and `Led.step` first.
-/

namespace MutualCloud.Dht

open Go Interaction Labelled
open Control (TaskLease)

variable {β τ : Type}

/-- The register has held the value: it started with it, or somebody put it. -/
def Held (start : Register β) (history : List (τ × Event β)) (v : Option β) : Prop :=
  v = start.net ∨ ∃ l ∈ history, ∃ next, l.2.call = .putValue next ∧ v = some next

/-- What the register has held it has held ever after. -/
theorem Held.snoc {start : Register β} {history : List (τ × Event β)} {v : Option β}
    (h : Held start history v) (l : τ × Event β) : Held start (history ++ [l]) v := by
  rcases h with h | ⟨l', hl', hput⟩
  · exact .inl h
  · exact .inr ⟨l', List.mem_append_left _ hl', hput⟩

/-- The callback of call `i` made the value, at a reading of its clock, from one that the register
has held. -/
def Made (check : τ → Check β) (start : Register β) (history : List (τ × Event β)) (i : τ)
    (next : β) : Prop :=
  ∃ now prev, ReadAt history i now ∧ Held start history prev ∧ check i now prev = .accept next

/-- What was made stays made. -/
theorem Made.snoc {check : τ → Check β} {start : Register β} {history : List (τ × Event β)}
    {i : τ} {next : β} (h : Made check start history i next) (l : τ × Event β) :
    Made check start (history ++ [l]) i next := by
  obtain ⟨now, prev, hread, hheld, hcheck⟩ := h
  exact ⟨now, prev, hread.snoc l, hheld.snoc l, hcheck⟩

/-- The callback of call `i` has turned the first value of the register down. -/
def TurnedDown (check : τ → Check β) (start : Register β) (history : List (τ × Event β)) (i : τ) :
    Prop :=
  ∃ now, ReadAt history i now ∧ ∀ next, check i now start.net ≠ .accept next

/-- What was turned down stays turned down. -/
theorem TurnedDown.snoc {check : τ → Check β} {start : Register β}
    {history : List (τ × Event β)} {i : τ} (h : TurnedDown check start history i)
    (l : τ × Event β) : TurnedDown check start (history ++ [l]) i := by
  obtain ⟨now, hread, hcheck⟩ := h
  exact ⟨now, hread.snoc l, hcheck⟩

namespace Stage

/-- Where the values come from that a call works with. -/
def Sourced (check : τ → Check β) (start : Register β) (history : List (τ × Event β)) (i : τ) :
    Stage β → Prop
  | reading _ _ | ended _ => True
  | loading _ => Held start history none
  | asking _ prev => Held start history prev
  | putting _ _ _ next | verifying _ next => Made check start history i next

/-- Where a call can stand while nobody has put. It has lost a try, or ended, only if its callback
has turned the first value down. -/
def Untouched (check : τ → Check β) (start : Register β) (history : List (τ × Event β)) (i : τ) :
    Stage β → Prop
  | reading n _ => n = 5 ∨ TurnedDown check start history i
  | loading _ => start.net = none
  | asking _ prev => prev = start.net
  | putting _ _ _ _ => True
  | verifying _ _ => False
  | ended result => result ≠ .ok () ∧ TurnedDown check start history i

/-- The call has put `next` and has not lost it: it is going to read it back, or has done so. -/
def Keeps (next : β) : Stage β → Prop
  | verifying _ v => v = next
  | ended result => result = .ok ()
  | _ => False

variable {check : τ → Check β} {start : Register β} {history : List (τ × Event β)} {i : τ}
  {stage : Stage β}

/-- The sources of the values stay as they are. -/
theorem Sourced.snoc (h : stage.Sourced check start history i) (l : τ × Event β) :
    stage.Sourced check start (history ++ [l]) i := by
  cases stage with
  | reading | ended => trivial
  | loading | asking => exact Held.snoc h l
  | putting | verifying => exact Made.snoc h l

/-- A call stays untouched when another one steps. -/
theorem Untouched.snoc (h : stage.Untouched check start history i) (l : τ × Event β) :
    stage.Untouched check start (history ++ [l]) i := by
  cases stage with
  | reading n lastErr => exact Or.imp_right (fun hdown => hdown.snoc l) h
  | loading | asking => exact h
  | putting => trivial
  | verifying => exact h
  | ended result => exact ⟨h.1, h.2.snoc l⟩

end Stage

variable [DecidableEq β] [DecidableEq τ]

/-- The steps of a call over a register without faults: the moves of a call that is left alone, and
the one of a call that reads back the value of another. -/
inductive Turn (check : Check β) (s : Register β) :
    Stage β → Event β → Stage β → Register β → Prop where
  | move {stage stage' : Stage β} {e : Event β} {s' : Register β}
      (hmove : Move check s stage e stage' s') : Turn check s stage e stage' s'
  | overtaken {n : ℕ} {next v : β} {input : Input} (hnet : s.net = some v) (hne : v ≠ next) :
      Turn check s (.verifying n next) ⟨.getValue, input, .ok v⟩
        (.reading n (some .casConflict)) s

omit [DecidableEq τ] in
/-- A step of a call is one of these, if the register is not empty when the call verifies. -/
theorem turn_of_call {check : Check β} {s s' : Register β} {stage : Stage β} {e : Event β}
    {k : e.call.Response → Prog (Op β) Op.Response (Except Err Unit)}
    (hcall : stage.code check = .call e.call k) (hanswer : Answers effect s e s')
    (hfault : e.input.fault = none) (hloc : s.loc = none)
    (hput : ∀ n next, stage = .verifying n next → ∃ v, s.net = some v) :
    ∃ stage', Turn check s stage e stage' s' ∧ k e.response = stage'.code check := by
  by_cases hlost : ∃ n next v, stage = .verifying n next ∧ s.net = some v ∧ v ≠ next
  · obtain ⟨n, next, v, rfl, hnet, hne⟩ := hlost
    obtain ⟨call, input, response⟩ := e
    dsimp only at k hcall hfault
    cases hcall
    have hresponse : effect Op.getValue input s = (response, s') := hanswer
    simp only [effect, Register.get, hfault, hnet] at hresponse
    obtain ⟨rfl, rfl⟩ := Prod.mk.inj hresponse
    refine ⟨_, .overtaken hnet hne, ?_⟩
    show (if v = next then Prog.done (.ok ()) else casLoop register check n _) = _
    rw [if_neg hne]
    rfl
  · have hverify : ∀ n next, stage = .verifying n next → accesses e → s.net = some next := by
      intro n next hstage _
      obtain ⟨v, hnet⟩ := hput n next hstage
      by_contra hne
      exact hlost ⟨n, next, v, hstage, hnet, fun hv => hne (hv ▸ hnet)⟩
    obtain ⟨stage', hmove, hcode⟩ := move_of_call hcall hanswer hfault hloc hverify
    exact ⟨stage', .move hmove, hcode⟩

/-- Every call stands at some stage. Either nobody has put, or the register holds a value that some
call has put last and not lost. -/
structure Led (check : τ → Check β) (start : Register β) (history : List (τ × Event β))
    (p : Pool τ (Op β) Op.Response (Register β) (Except Err Unit)) (stage : τ → Stage β) :
    Prop where
  thread : ∀ i, p.thread i = (stage i).code (check i)
  loc : p.shared.loc = none
  held : Held start history p.shared.net
  sourced : ∀ i, (stage i).Sourced check start history i
  led : (p.shared.net = start.net ∧ ∀ i, (stage i).Untouched check start history i) ∨
    ∃ i next, p.shared.net = some next ∧ Made check start history i next ∧ (stage i).Keeps next

namespace Led

variable {check : τ → Check β} {start : Register β} {history : List (τ × Event β)}
  {p p' : Pool τ (Op β) Op.Response (Register β) (Except Err Unit)} {stage : τ → Stage β}

omit [DecidableEq τ] in
/-- At the start nobody has put. -/
theorem initial (hloc : start.loc = none) :
    Led check start [] (calls check start) (fun _ => .reading 5 none) where
  thread _ := rfl
  loc := hloc
  held := .inl rfl
  sourced _ := trivial
  led := .inl ⟨rfl, fun _ => .inl rfl⟩

omit [DecidableEq τ] in
/-- Somebody has put when a call verifies. -/
theorem net_of_verifying (h : Led check start history p stage) {i : τ} {n : ℕ} {next : β}
    (hstage : stage i = .verifying n next) : ∃ v, p.shared.net = some v := by
  rcases h.led with ⟨_, huntouched⟩ | ⟨_, v, hnet, _⟩
  · have hi := huntouched i
    rw [hstage] at hi
    exact hi.elim
  · exact ⟨v, hnet⟩

/-- Call `i` takes a step that is not a put. It is enough that it does not lose the value of the
register, and stays untouched where it was. -/
theorem move (h : Led check start history p stage) {i : τ} {e : Event β} {now next : Stage β}
    (hstage : stage i = now) (hshared : p'.shared = p.shared)
    (hthread : p'.thread = Function.update p.thread i (next.code (check i)))
    (hsourced : next.Sourced check start (history ++ [(i, e)]) i)
    (huntouched : p.shared.net = start.net → now.Untouched check start history i →
      next.Untouched check start (history ++ [(i, e)]) i)
    (hkeeps : ∀ v, p.shared.net = some v → now.Keeps v → next.Keeps v) :
    Led check start (history ++ [(i, e)]) p' (Function.update stage i next) where
  thread j := by
    rw [hthread]
    exact Staged.code_update h.thread i next j
  loc := by rw [hshared, h.loc]
  held := by
    rw [hshared]
    exact h.held.snoc (i, e)
  sourced j := by
    by_cases hj : j = i
    · subst hj
      rwa [Function.update_self]
    · rw [Function.update_of_ne hj]
      exact (h.sourced j).snoc (i, e)
  led := by
    rw [hshared]
    rcases h.led with ⟨hnet, hall⟩ | ⟨j, v, hnet, hmade, hj⟩
    · refine .inl ⟨hnet, fun j => ?_⟩
      by_cases hj : j = i
      · subst hj
        rw [Function.update_self]
        exact huntouched hnet (hstage ▸ hall j)
      · rw [Function.update_of_ne hj]
        exact (hall j).snoc (i, e)
    · refine .inr ⟨j, v, hnet, hmade.snoc (i, e), ?_⟩
      by_cases hi : j = i
      · subst hi
        rw [Function.update_self]
        exact hkeeps v hnet (hstage ▸ hj)
      · rw [Function.update_of_ne hi]
        exact hj

/-- Call `i` puts, and leads. -/
theorem put (h : Led check start history p stage) {i : τ} {input : Input} {n : ℕ} {now : Time}
    {prev : Option β} {next : β} (hstage : stage i = .putting n now prev next)
    (hshared : p'.shared = { p.shared with net := some next })
    (hthread : p'.thread =
      Function.update p.thread i ((Stage.verifying n next).code (check i))) :
    Led check start (history ++ [(i, ⟨.putValue next, input, none⟩)]) p'
      (Function.update stage i (.verifying n next)) := by
  have hmade : Made check start history i next := by
    have hsourced := h.sourced i
    rwa [hstage] at hsourced
  refine ⟨fun j => ?_, ?_, ?_, fun j => ?_, .inr ⟨i, next, ?_, hmade.snoc _, ?_⟩⟩
  · rw [hthread]
    exact Staged.code_update h.thread i (.verifying n next) j
  · rw [hshared]
    exact h.loc
  · rw [hshared]
    exact .inr ⟨_, List.mem_append_right _ (List.mem_singleton_self _), next, rfl, rfl⟩
  · by_cases hj : j = i
    · subst hj
      rw [Function.update_self]
      exact hmade.snoc _
    · rw [Function.update_of_ne hj]
      exact (h.sourced j).snoc _
  · rw [hshared]
  · rw [Function.update_self]
    rfl

/-- Every step of a schedule without faults leads from stage to stage. -/
theorem step (h : Led check start history p stage) {l : τ × Event β}
    (hstep : Pool.Step effect p l p') (hfault : l.2.input.fault = none) :
    ∃ stage', Led check start (history ++ [l]) p' stage' := by
  obtain ⟨i, e⟩ := l
  obtain ⟨k, hcall, hanswer, hthread⟩ := hstep
  rw [h.thread i] at hcall
  obtain ⟨stage', hturn, hcode⟩ := turn_of_call hcall hanswer hfault h.loc
    fun n next hstage => h.net_of_verifying hstage
  rw [hcode] at hthread
  have hsourced := h.sourced i
  generalize hstage : stage i = now at hturn hsourced
  generalize hshared : p'.shared = s' at hturn
  have hreads : ∀ input : Input, ReadAt
      (history ++ [(i, (⟨.timeNow, input, (input.now : Time)⟩ : Event β))]) i input.now :=
    fun input => ⟨input, rfl, List.mem_append_right _ (List.mem_singleton_self _)⟩
  have hdown : ∀ {input : Input} {verdict : Verdict β}, check i input.now start.net = verdict →
      (∀ next, verdict ≠ .accept next) → TurnedDown check start
        (history ++ [(i, (⟨.timeNow, input, (input.now : Time)⟩ : Event β))]) i := by
    intro input verdict hcheck hne
    refine ⟨input.now, hreads input, fun next => ?_⟩
    rw [hcheck]
    exact hne next
  cases hturn with
  | overtaken hnet hne =>
      refine ⟨_, h.move hstage hshared hthread trivial (fun _ hverifying => hverifying.elim) ?_⟩
      -- the register holds the value of another call, which keeps it
      intro w hw hkeeps
      exact absurd ((Option.some.inj (hnet.symm.trans hw)).trans hkeeps.symm) hne
  | move hmove =>
      cases hmove with
      | found hnet =>
          refine ⟨_, h.move hstage hshared hthread ?_ (fun hstart _ => hnet.symm.trans hstart)
            fun _ _ hkeeps => hkeeps.elim⟩
          rw [← hnet]
          exact h.held.snoc _
      | absent hnet =>
          refine ⟨_, h.move hstage hshared hthread ?_ (fun hstart _ => hstart.symm.trans hnet)
            fun _ _ hkeeps => hkeeps.elim⟩
          show Held _ _ none
          rw [← hnet]
          exact h.held.snoc _
      | loaded =>
          exact ⟨_, h.move hstage hshared hthread (Held.snoc hsourced _)
            (fun _ hnone => Eq.symm hnone) fun _ _ hkeeps => hkeeps.elim⟩
      | failed hcheck =>
          refine ⟨_, h.move hstage hshared hthread trivial ?_ fun _ _ hkeeps => hkeeps.elim⟩
          rintro _ rfl
          exact ⟨fun hok => (by cases hok), hdown hcheck fun next heq => (by cases heq)⟩
      | refused hcheck =>
          refine ⟨_, h.move hstage hshared hthread trivial ?_ fun _ _ hkeeps => hkeeps.elim⟩
          rintro _ rfl
          exact .inr (hdown hcheck fun next heq => (by cases heq))
      | accepted hcheck =>
          exact ⟨_, h.move hstage hshared hthread
            ⟨_, _, hreads _, Held.snoc hsourced _, hcheck⟩ (fun _ _ => trivial)
            fun _ _ hkeeps => hkeeps.elim⟩
      | put => exact ⟨_, h.put hstage hshared hthread⟩
      | verified hnet =>
          exact ⟨_, h.move hstage hshared hthread trivial (fun _ hverifying => hverifying.elim)
            fun _ _ _ => rfl⟩

/-- A schedule without faults leads from stage to stage. -/
theorem run (hrun : Execution (Pool.Step effect) (calls check start) history p)
    (hreliable : ∀ l ∈ history, l.2.input.fault = none) (hloc : start.loc = none) :
    ∃ stage, Led check start history p stage := by
  induction hrun with
  | refl => exact ⟨_, initial hloc⟩
  | @snoc before middle finish label _ hstep ih =>
      obtain ⟨stage, h⟩ := ih fun l hl => hreliable l (by simp [hl])
      exact h.step hstep (hreliable label (by simp))

omit [DecidableEq τ] in
/-- A call that has ended stands at its end, or has no try left. -/
theorem untouched_of_done {i : τ} {result : Except Err Unit}
    (huntouched : (stage i).Untouched check start history i)
    (hdone : (stage i).code (check i) = .done result) :
    result ≠ .ok () ∧ TurnedDown check start history i := by
  cases hstage : stage i with
  | reading n lastErr =>
      rw [hstage] at huntouched hdone
      cases n with
      | zero =>
          obtain rfl : Except.error (lastErr.getD .casConflict) = result := Prog.done.inj hdone
          exact ⟨fun hok => (by cases hok), huntouched.resolve_left (by omega)⟩
      | succ n => cases hdone
  | loading n | asking n prev | putting n now prev next | verifying n next =>
      rw [hstage] at hdone
      cases hdone
  | ended result' =>
      rw [hstage] at huntouched hdone
      obtain rfl : result' = result := Prog.done.inj hdone
      exact huntouched

omit [DecidableEq τ] in
/-- A call that keeps its value and has ended has returned nil. -/
theorem ok_of_keeps {i : τ} {next : β} {result : Except Err Unit} (hkeeps : (stage i).Keeps next)
    (hdone : (stage i).code (check i) = .done result) : result = .ok () := by
  cases hstage : stage i with
  | reading | loading | asking | putting =>
      rw [hstage] at hkeeps
      exact hkeeps.elim
  | verifying =>
      rw [hstage] at hdone
      cases hdone
  | ended result' =>
      rw [hstage] at hkeeps hdone
      obtain rfl : result' = result := Prog.done.inj hdone
      exact hkeeps

omit [DecidableEq τ] in
/-- When all calls have ended, the value under the key was made by a call that returned nil; or
every callback has turned the first value down, nobody returned nil, and the value is still
there. -/
theorem settled (h : Led check start history p stage) (hended : p.Quiescent) :
    (p.shared.net = start.net ∧
      ∀ i, p.thread i ≠ .done (.ok ()) ∧ TurnedDown check start history i) ∨
    ∃ i next, p.thread i = .done (.ok ()) ∧ p.shared.net = some next ∧
      Made check start history i next := by
  rcases h.led with ⟨hnet, huntouched⟩ | ⟨i, next, hnet, hmade, hkeeps⟩
  · refine .inl ⟨hnet, fun i => ?_⟩
    obtain ⟨result, hdone⟩ := hended i
    have hdown := untouched_of_done (huntouched i) ((h.thread i).symm.trans hdone)
    refine ⟨fun hok => hdown.1 ?_, hdown.2⟩
    exact Prog.done.inj (hdone.symm.trans hok)
  · obtain ⟨result, hdone⟩ := hended i
    have hok := ok_of_keeps hkeeps ((h.thread i).symm.trans hdone)
    rw [hok] at hdone
    exact .inr ⟨i, next, hdone, hnet, hmade⟩

end Led

/-- However the steps of claims of one lease overlap, when all have ended the record names a claim
that returned its nonce. The other case is that every claim found the first lease held: then none
returned its nonce, and that lease is still there. -/
theorem claims_settle {c : Codec β TaskLease} {inc : Int → Int} {peer nonce : τ → String}
    {ttl : τ → Duration} {start : Register β} {history : List (τ × Event β)}
    {p : Pool τ (Op β) Op.Response (Register β) (Except Err Unit)}
    (hrun : Execution (Pool.Step effect)
      (calls (fun i => claimCheck c inc (peer i) (nonce i) (ttl i)) start) history p)
    (hreliable : ∀ l ∈ history, l.2.input.fault = none) (hloc : start.loc = none)
    (hended : p.Quiescent) :
    (p.shared.net = start.net ∧ ∀ i, p.thread i ≠ .done (.ok ()) ∧
      ∃ now, ReadAt history i now ∧ Live (c.record start.net) now) ∨
    ∃ i now, p.thread i = .done (.ok ()) ∧ ReadAt history i now ∧
      (c.record p.shared.net).owner = peer i ∧ (c.record p.shared.net).nonce = nonce i ∧
      (c.record p.shared.net).expires = now + leaseTTL (ttl i) := by
  obtain ⟨stage, hled⟩ := Led.run hrun hreliable hloc
  rcases hled.settled hended with ⟨hnet, hall⟩ | ⟨i, next, hok, hnet, hmade⟩
  · refine .inl ⟨hnet, fun i => ⟨(hall i).1, ?_⟩⟩
    obtain ⟨now, hread, hdown⟩ := (hall i).2
    refine ⟨now, hread, ?_⟩
    by_contra hfree
    exact hdown _ (claim_check_accept.mpr ⟨hfree, rfl⟩)
  · obtain ⟨now, prev, hread, _, hcheck⟩ := hmade
    obtain ⟨_, rfl⟩ := claim_check_accept.mp hcheck
    refine .inr ⟨i, now, hok, hread, ?_⟩
    rw [hnet, Codec.record_marshal]
    exact ⟨rfl, rfl, rfl⟩

/-- Two claims that cross: both return their nonces, and the record is that of one of them. -/
theorem claims_settle_crossed :
    (Sample.byTurns Sample.crossed).2.Quiescent ∧
    ∃ i now, ReadAt (Sample.byTurns Sample.crossed).1 i now ∧
      (Sample.codec.record (Sample.byTurns Sample.crossed).2.shared.net).owner =
        if i then "b" else "a" := by
  have hended : (Sample.byTurns Sample.crossed).2.Quiescent := by
    intro b
    cases b <;> exact ⟨_, rfl⟩
  refine ⟨hended, ?_⟩
  rcases claims_settle (Pool.schedule_execution _ _ _)
    (fun l hl => by rw [Sample.by_turns_input _ l hl]) rfl hended with ⟨_, hnone⟩ | hone
  · exact absurd rfl (hnone false).1
  · obtain ⟨i, now, _, hread, howner, _⟩ := hone
    exact ⟨i, now, hread, howner⟩

end MutualCloud.Dht
