import MutualCloud.Library.Postcondition
import MutualCloud.Library.Provenance

/-!
# One thread among others

Two rules say with what a thread ends in an interleaving. `Pool.ensures` carries over what its
program ensures when it runs alone: the calls of the thread must see no more than a part of the
state, and the other threads must leave this part as it is. `Pool.returns` needs nothing of the
state: where the responses that the thread received satisfy an assumption, its program ends with a
value that it returns under this assumption. `Pool.alone` is the interleaving in which a thread runs
to its end while the others wait.
-/

namespace Interaction

open Labelled

variable {ι : Type} {ρ : ι → Type} {ε σ ν α β τ : Type}

namespace Prog

/-! ## Values under assumptions on the responses -/

/-- As long as every response satisfies `A`, the program ends with a value that satisfies `Q`. -/
def Returns (A : (c : ι) → ρ c → Prop) (Q : α → Prop) : Prog ι ρ α → Prop
  | .done a => Q a
  | .call c k => ∀ r, A c r → (k r).Returns A Q

variable {A : (c : ι) → ρ c → Prop} {Q Q' : α → Prop} {p : Prog ι ρ α}

/-- What is said of the value may be weakened. -/
theorem Returns.mono (h : p.Returns A Q) (himp : ∀ a, Q a → Q' a) : p.Returns A Q' := by
  induction p with
  | done a => exact himp a h
  | call c k ih => exact fun r hr => ih r (h r hr)

/-- The rest of a sequence goes on from a value of the first part. -/
theorem returns_bind {f : α → Prog ι ρ β} {P : β → Prop}
    (h : p.Returns A fun a => (f a).Returns A P) : (p >>= f).Returns A P := by
  induction p with
  | done a => exact h
  | call c k ih => exact fun r hr => ih r (h r hr)

/-- What holds of all values is returned by every program. -/
theorem returns_of_forall (h : ∀ a, Q a) : p.Returns A Q := by
  induction p with
  | done a => exact h a
  | call c k ih => exact fun r _ => ih r

/-- The value of a program whose responses were as assumed. -/
theorem Ends.returns {events : List (Event ι ρ ε)} {a : α} (h : p.Ends events a)
    (hp : p.Returns A Q) (hallowed : ∀ e ∈ events, A e.call e.response) : Q a := by
  induction h with
  | done a => exact hp
  | call input r _ ih =>
      exact ih (hp r (hallowed _ List.mem_cons_self)) fun e he =>
        hallowed e (List.mem_cons_of_mem _ he)

/-- An assumption on the responses may be strengthened. -/
theorem Always.assume {A' : (c : ι) → ρ c → Prop} {P : ι → Prop} (h : p.Always A P)
    (himp : ∀ c r, A' c r → A c r) : p.Always A' P := by
  induction p with
  | done a => trivial
  | call c k ih => exact ⟨h.1, fun r hr => ih r (h.2 r (himp c r hr))⟩

/-- A call that the first part of a sequence cannot avoid. -/
theorem inevitably_bind_left {P : ι → Prop} (h : p.Inevitably A P) (f : α → Prog ι ρ β) :
    (p >>= f).Inevitably A P := by
  induction p with
  | done a => cases h
  | call c k ih => exact h.imp_right fun hrest r hr => ih r (hrest r hr)

/-- A sequence has ended when its first part has and then the rest. -/
theorem Ends.of_bind {f : α → Prog ι ρ β} {events : List (Event ι ρ ε)} {b : β}
    (h : (p >>= f).Ends events b) :
    ∃ a first rest, events = first ++ rest ∧ p.Ends first a ∧ (f a).Ends rest b := by
  induction p generalizing events with
  | done a => exact ⟨a, [], events, rfl, .done a, h⟩
  | call c k ih =>
      cases h with
      | call input r hrest =>
          obtain ⟨a, first, rest, rfl, hfirst, hrest⟩ := ih r hrest
          exact ⟨a, ⟨c, input, r⟩ :: first, rest, rfl, .call input r hfirst, hrest⟩

/-- A program that runs alone ends with its value. -/
theorem run_ends (effect : Effect ι ρ ε σ) (p : Prog ι ρ α) (inputs : ℕ → ε) (s : σ) :
    p.Ends (p.run effect inputs s).events (p.run effect inputs s).value := by
  induction p generalizing inputs s with
  | done a => exact .done a
  | call c k ih => exact .call (inputs 0) _ (ih _ _ _)

end Prog

/-! ## A part of the state -/

/-- The answer to the call, and what it does to a part of the state, depend on that part only. -/
def SeesOnly (effect : Effect ι ρ ε σ) (view : σ → ν) (c : ι) : Prop :=
  ∀ input s t, view s = view t →
    (effect c input s).1 = (effect c input t).1 ∧
      view (effect c input s).2 = view (effect c input t).2

/-- The call leaves a part of the state as it is. -/
def Leaves (effect : Effect ι ρ ε σ) (view : σ → ν) (c : ι) : Prop :=
  ∀ input s, view (effect c input s).2 = view s

/-- A call that leaves the part as it is and is answered alike in all states sees nothing. -/
theorem Leaves.sees_only {effect : Effect ι ρ ε σ} {view : σ → ν} {c : ι}
    (h : Leaves effect view c)
    (hanswer : ∀ input s t, (effect c input s).1 = (effect c input t).1) :
    SeesOnly effect view c := by
  intro input s t hview
  exact ⟨hanswer input s t, (h input s).trans (hview.trans (h input t).symm)⟩

namespace Pool

variable [DecidableEq τ] {effect : Effect ι ρ ε σ} {view : σ → ν}
  {p p' : Pool τ ι ρ σ α} {history : List (τ × Event ι ρ ε)} {i : τ}

/-- What all calls leave as it is stays as it is. -/
theorem leaves (h : Execution (Step effect) p history p')
    (hleaves : ∀ l ∈ history, Leaves effect view l.2.call) : view p'.shared = view p.shared := by
  refine (h.restrict hleaves).invariant (I := fun q => view q.shared = view p.shared) rfl ?_
  rintro q l q' hview ⟨hl, k, -, hanswer, -⟩
  have hstep := hl l.2.input q.shared
  rw [show effect l.2.call l.2.input q.shared = (l.2.response, q'.shared) from hanswer] at hstep
  exact hstep.trans hview

/-- What a program ensures when it runs alone holds when its thread has ended, if its calls see a
part of the state only, the other threads leave the part as it is, and the postcondition speaks of
nothing else. -/
theorem ensures {R : ε → Prop} {Q : α → ν → Prop} {a : α}
    (h : Execution (Step effect) p history p')
    (hown : (p.thread i).Always (fun _ _ => True) (SeesOnly effect view))
    (hothers : ∀ l ∈ history, l.1 ≠ i → Leaves effect view l.2.call)
    (hinputs : ∀ e, (i, e) ∈ history → R e.input)
    (hensures : (p.thread i).Ensures effect R p.shared fun a s => Q a (view s))
    (hend : p'.thread i = .done a) : Q a (view p'.shared) := by
  -- the thread goes on as it would from a state with the same part
  have hrun : ∃ t, view t = view p'.shared ∧
      (p'.thread i).Ensures effect R t (fun a s => Q a (view s)) ∧
      (p'.thread i).Always (fun _ _ => True) (SeesOnly effect view) := by
    refine h.invariant_history (I := fun before q => (∀ l ∈ before, l ∈ history) →
      ∃ t, view t = view q.shared ∧
        (q.thread i).Ensures effect R t (fun a s => Q a (view s)) ∧
        (q.thread i).Always (fun _ _ => True) (SeesOnly effect view)) ?_ ?_ fun _ hl => hl
    · exact fun _ => ⟨p.shared, rfl, hensures, hown⟩
    · rintro before q l q' - ih ⟨k, hthread, hanswer, hnext⟩ hmem
      have hl := hmem l (List.mem_append_right before (List.mem_singleton_self l))
      obtain ⟨t, hview, hq, halways⟩ := ih fun x hx => hmem x (List.mem_append_left _ hx)
      have hresult : effect l.2.call l.2.input q.shared = (l.2.response, q'.shared) := hanswer
      by_cases hi : l.1 = i
      · obtain ⟨j, e⟩ := l
        cases hi
        rw [hthread] at hq halways
        obtain ⟨hresponse, hstate⟩ := halways.1 e.input t q.shared hview
        rw [hresult] at hresponse hstate
        have hrest := hq e.input (hinputs e hl)
        rw [hresponse] at hrest
        rw [hnext, Function.update_self]
        exact ⟨_, hstate, hrest, halways.2 e.response trivial⟩
      · have hleaves := hothers l hl hi l.2.input q.shared
        rw [hresult] at hleaves
        rw [hnext, Function.update_of_ne (Ne.symm hi)]
        exact ⟨t, hview.trans hleaves.symm, hq, halways⟩
  obtain ⟨t, hview, hq, -⟩ := hrun
  rw [hend] at hq
  rw [← hview]
  exact hq

/-- A thread that received responses as assumed has ended with a value that its program returns. -/
theorem returns {A : (c : ι) → ρ c → Prop} {Q : α → Prop} {a : α}
    (h : Execution (Step effect) p history p') (hp : (p.thread i).Returns A Q)
    (hallowed : ∀ e, (i, e) ∈ history → A e.call e.response) (hend : p'.thread i = .done a) :
    Q a :=
  (ends h hend).returns hp fun e he => hallowed e (mem_own.mp he)

/-- A thread can run to its end while the others wait. -/
theorem alone {q : Prog ι ρ α} (hthread : p.thread i = q) (inputs : ℕ → ε) :
    Execution (Step effect) p ((q.run effect inputs p.shared).events.map (Prod.mk i))
      ⟨(q.run effect inputs p.shared).state,
        Function.update p.thread i (.done (q.run effect inputs p.shared).value)⟩ := by
  induction q generalizing p inputs with
  | done a =>
      have hsame : (⟨p.shared, Function.update p.thread i (.done a)⟩ : Pool τ ι ρ σ α) = p := by
        rw [← hthread, Function.update_eq_self]
      show Execution _ p [] ⟨p.shared, Function.update p.thread i (.done a)⟩
      rw [hsame]
      exact .refl
  | call c k ih =>
      let next : Pool τ ι ρ σ α := ⟨(effect c (inputs 0) p.shared).2,
        Function.update p.thread i (k (effect c (inputs 0) p.shared).1)⟩
      have hfirst : Step effect p (i, ⟨c, inputs 0, (effect c (inputs 0) p.shared).1⟩) next :=
        ⟨k, hthread, rfl, rfl⟩
      have hrest := ih _ (p := next) (Function.update_self i _ _) fun n => inputs (n + 1)
      rw [show next.thread = Function.update p.thread i _ from rfl, Function.update_idem] at hrest
      exact (Execution.single hfirst).trans hrest

end Pool

end Interaction
