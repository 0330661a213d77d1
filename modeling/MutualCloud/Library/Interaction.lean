import MutualCloud.Library.Execution
import Mathlib.Logic.Function.Basic

/-!
# Programs that call a shared environment

A `Prog ι ρ α` is a sequential program that makes calls of type `ι`, receives a response of
type `ρ c` to the call `c`, and ends with a value of type `α`. An `Effect` says how the
environment answers a call in a state; whatever it does not fix (a clock reading, a failure)
is the `input` of the call. `Prog.run` is one program alone, and `Pool.Step` one atomic call of
one program among many, so an execution of `Pool.Step` is an interleaving.

`Pool.always` and `Pool.inevitably` are the two rules for interleavings: a property of every
call a program can make holds of every call in the history, and a call that a program cannot
avoid is in the history once the program has ended. `Pool.ends` gives back what one thread did:
its own events, whatever the others did in between, lead its program to its value.
-/

namespace Interaction

open Labelled

variable {ι : Type} {ρ : ι → Type} {ε σ α β τ : Type}

/-- One call with the input it was answered under and the response. -/
structure Event (ι : Type) (ρ : ι → Type) (ε : Type) where
  call : ι
  input : ε
  response : ρ call

/-- How the environment answers a call: the response and the next state. -/
abbrev Effect (ι : Type) (ρ : ι → Type) (ε σ : Type) :=
  (c : ι) → ε → σ → ρ c × σ

/-- The event is what the environment does on its call in state `s`, and leads to `s'`. -/
def Answers (effect : Effect ι ρ ε σ) (s : σ) (e : Event ι ρ ε) (s' : σ) : Prop :=
  effect e.call e.input s = (e.response, s')

/-- Answer a list of calls one after another. -/
def replay (effect : Effect ι ρ ε σ) : List (ι × ε) → σ → List (Event ι ρ ε) × σ
  | [], s => ([], s)
  | (c, input) :: rest, s =>
      let answer := effect c input s
      let later := replay effect rest answer.2
      (⟨c, input, answer.1⟩ :: later.1, later.2)

/-- The environment is total: every list of calls has its execution. -/
theorem replay_execution (effect : Effect ι ρ ε σ) (script : List (ι × ε)) (s : σ) :
    Execution (Answers effect) s (replay effect script s).1 (replay effect script s).2 := by
  induction script generalizing s with
  | nil => exact .refl
  | cons head rest ih =>
      have hfirst : Execution (Answers effect) s
          [⟨head.1, head.2, (effect head.1 head.2 s).1⟩] (effect head.1 head.2 s).2 :=
        .single rfl
      exact hfirst.trans (ih _)

/-- Sequential programs over the calls `ι`. -/
inductive Prog (ι : Type) (ρ : ι → Type) (α : Type) where
  | done (value : α)
  | call (c : ι) (k : ρ c → Prog ι ρ α)

namespace Prog

/-- Sequential composition. -/
def bind : Prog ι ρ α → (α → Prog ι ρ β) → Prog ι ρ β
  | .done a, f => f a
  | .call c k, f => .call c fun r => (k r).bind f

instance : Monad (Prog ι ρ) where
  pure := .done
  bind := bind

/-- The program that makes one call and returns its response. -/
def perform (c : ι) : Prog ι ρ (ρ c) := .call c .done

/-- A program over the calls `ι`, as a program over a larger set of calls. -/
def embed {ι' : Type} {ρ' : ι' → Type} (f : ι → ι') (g : (c : ι) → ρ' (f c) → ρ c) :
    Prog ι ρ α → Prog ι' ρ' α
  | .done a => .done a
  | .call c k => .call (f c) fun r => (k (g c r)).embed f g

@[simp] theorem pure_eq_done (a : α) : (pure a : Prog ι ρ α) = .done a := rfl

@[simp] theorem done_bind (a : α) (f : α → Prog ι ρ β) : (Prog.done a >>= f) = f a := rfl

@[simp] theorem call_bind (c : ι) (k : ρ c → Prog ι ρ α) (f : α → Prog ι ρ β) :
    (Prog.call c k >>= f) = .call c fun r => k r >>= f := rfl

@[simp] theorem perform_bind (c : ι) (f : ρ c → Prog ι ρ β) :
    (perform c >>= f) = .call c f := rfl

/-- Sequential composition is associative. -/
theorem bind_assoc {γ : Type} (p : Prog ι ρ α) (f : α → Prog ι ρ β) (g : β → Prog ι ρ γ) :
    (p >>= f >>= g) = p >>= fun a => f a >>= g := by
  induction p with
  | done a => rfl
  | call c k ih => exact congrArg (Prog.call c) (funext ih)

/-- A program that goes on by returning its value is the program itself. -/
theorem bind_eq_self {f : α → Prog ι ρ α} (h : ∀ a, f a = .done a) (p : Prog ι ρ α) :
    (p >>= f) = p := by
  induction p with
  | done a => exact h a
  | call c k ih => exact congrArg (Prog.call c) (funext ih)

/-- A finished run: the value, the calls made, oldest first, and the final state. -/
structure Run (ι : Type) (ρ : ι → Type) (ε σ α : Type) where
  value : α
  events : List (Event ι ρ ε)
  state : σ

/-- Run a program alone. The `n`-th call is answered under `inputs n`. -/
def run (effect : Effect ι ρ ε σ) : Prog ι ρ α → (ℕ → ε) → σ → Run ι ρ ε σ α
  | .done a, _, s => ⟨a, [], s⟩
  | .call c k, inputs, s =>
      let answer := effect c (inputs 0) s
      let rest := (k answer.1).run effect (fun n => inputs (n + 1)) answer.2
      ⟨rest.value, ⟨c, inputs 0, answer.1⟩ :: rest.events, rest.state⟩

/-- A run is an execution of the environment. -/
theorem run_execution (effect : Effect ι ρ ε σ) (p : Prog ι ρ α) (inputs : ℕ → ε) (s : σ) :
    Execution (Answers effect) s (p.run effect inputs s).events
      (p.run effect inputs s).state := by
  induction p generalizing inputs s with
  | done a => exact .refl
  | call c k ih =>
      have hfirst : Execution (Answers effect) s
          [⟨c, inputs 0, (effect c (inputs 0) s).1⟩] (effect c (inputs 0) s).2 :=
        .single rfl
      exact hfirst.trans (ih _ _ _)

/-- Running a sequence is running its first part and then the rest. -/
theorem run_bind (effect : Effect ι ρ ε σ) (p : Prog ι ρ α) (f : α → Prog ι ρ β)
    (inputs : ℕ → ε) (s : σ) :
    (p >>= f).run effect inputs s =
      let first := p.run effect inputs s
      let rest := (f first.value).run effect (fun n => inputs (n + first.events.length)) first.state
      ⟨rest.value, first.events ++ rest.events, rest.state⟩ := by
  induction p generalizing inputs s with
  | done a => rfl
  | call c k ih =>
      rw [call_bind]
      simp only [run, ih, List.length_cons, List.cons_append]
      simp only [Nat.add_assoc]

/-- A program over a part of the calls returns in the larger environment what it returns in its
own, which sees the part `view` of the state. -/
theorem run_embed_value {ι' : Type} {ρ' : ι' → Type} {ε' σ' : Type} {f : ι → ι'}
    {g : (c : ι) → ρ' (f c) → ρ c} {effect : Effect ι ρ ε σ} {effect' : Effect ι' ρ' ε' σ'}
    (view : σ' → σ) (part : ε' → ε)
    (hanswer : ∀ c input s, g c (effect' (f c) input s).1 = (effect c (part input) (view s)).1)
    (hstate : ∀ c input s, view (effect' (f c) input s).2 = (effect c (part input) (view s)).2)
    (p : Prog ι ρ α) (inputs : ℕ → ε') (s : σ') :
    ((p.embed f g).run effect' inputs s).value =
      (p.run effect (fun n => part (inputs n)) (view s)).value := by
  induction p generalizing inputs s with
  | done a => rfl
  | call c k ih =>
      have hrest := ih (effect c (part (inputs 0)) (view s)).1 (fun n => inputs (n + 1))
        (effect' (f c) (inputs 0) s).2
      rw [hstate] at hrest
      simpa only [embed, run, hanswer] using hrest

/-- As long as every response satisfies `A`, every call satisfies `P`. -/
def Always (A : (c : ι) → ρ c → Prop) (P : ι → Prop) : Prog ι ρ α → Prop
  | .done _ => True
  | .call c k => P c ∧ ∀ r, A c r → (k r).Always A P

/-- As long as every response satisfies `A`, the program cannot end without a call that
satisfies `Q`. -/
def Inevitably (A : (c : ι) → ρ c → Prop) (Q : ι → Prop) : Prog ι ρ α → Prop
  | .done _ => False
  | .call c k => Q c ∨ ∀ r, A c r → (k r).Inevitably A Q

/-- Every call of a sequence is a call of one of its parts. -/
theorem always_bind {A : (c : ι) → ρ c → Prop} {P : ι → Prop} {p : Prog ι ρ α}
    {f : α → Prog ι ρ β} (hp : p.Always A P) (hf : ∀ a, (f a).Always A P) :
    (p >>= f).Always A P := by
  induction p with
  | done a => exact hf a
  | call c k ih => exact ⟨hp.1, fun r hr => ih r (hp.2 r hr)⟩

/-- Every call of a program over a part of the calls is of that part. -/
theorem always_embed {ι' : Type} {ρ' : ι' → Type} {f : ι → ι'} {g : (c : ι) → ρ' (f c) → ρ c}
    {A : (c : ι') → ρ' c → Prop} {P : ι' → Prop} (h : ∀ c, P (f c)) (p : Prog ι ρ α) :
    (p.embed f g).Always A P := by
  induction p with
  | done a => trivial
  | call c k ih => exact ⟨h c, fun r _ => ih (g c r)⟩

/-- Every call of a loop is a call of its body. -/
theorem always_forM {A : (c : ι) → ρ c → Prop} {P : ι → Prop} {f : β → Prog ι ρ PUnit}
    {xs : List β} (h : ∀ x ∈ xs, (f x).Always A P) : (xs.forM f).Always A P := by
  induction xs with
  | nil => trivial
  | cons x rest ih =>
      refine always_bind (h x List.mem_cons_self) fun _ => ?_
      exact ih fun y hy => h y (List.mem_cons_of_mem x hy)

/-- A property of the calls may be weakened. -/
theorem Always.mono {A : (c : ι) → ρ c → Prop} {P P' : ι → Prop} {p : Prog ι ρ α}
    (h : p.Always A P) (himp : ∀ c, P c → P' c) : p.Always A P' := by
  induction p with
  | done a => trivial
  | call c k ih => exact ⟨himp c h.1, fun r hr => ih r (h.2 r hr)⟩

/-- A property of every call that a program can make is one of the calls that they become in a
larger set. -/
theorem Always.embed {ι' : Type} {ρ' : ι' → Type} {f : ι → ι'} {g : (c : ι) → ρ' (f c) → ρ c}
    {P : ι → Prop} {P' : ι' → Prop} {p : Prog ι ρ α} (h : p.Always (fun _ _ => True) P)
    (himp : ∀ c, P c → P' (f c)) : (p.embed f g).Always (fun _ _ => True) P' := by
  induction p with
  | done a => trivial
  | call c k ih => exact ⟨himp c h.1, fun r _ => ih (g c r) (h.2 _ trivial)⟩

/-- What holds of every call that a program can make holds of the calls of its runs. -/
theorem run_always {P : ι → Prop} (effect : Effect ι ρ ε σ) {p : Prog ι ρ α}
    (h : p.Always (fun _ _ => True) P) (inputs : ℕ → ε) (s : σ) :
    ∀ e ∈ (p.run effect inputs s).events, P e.call := by
  induction p generalizing inputs s with
  | done a => simp [run]
  | call c k ih =>
      intro e he
      rcases List.mem_cons.mp he with rfl | he
      · exact h.1
      · exact ih _ (h.2 _ trivial) _ _ e he

/-- A call that the rest of a sequence cannot avoid. -/
theorem inevitably_bind {A : (c : ι) → ρ c → Prop} {Q : ι → Prop} {f : α → Prog ι ρ β}
    (hf : ∀ a, (f a).Inevitably A Q) (p : Prog ι ρ α) : (p >>= f).Inevitably A Q := by
  induction p with
  | done a => exact hf a
  | call c k ih => exact .inr fun r _ => ih r

/-- A call that a program cannot avoid is made in its runs. -/
theorem run_inevitably {Q : ι → Prop} (effect : Effect ι ρ ε σ) {p : Prog ι ρ α}
    (h : p.Inevitably (fun _ _ => True) Q) (inputs : ℕ → ε) (s : σ) :
    ∃ e ∈ (p.run effect inputs s).events, Q e.call := by
  induction p generalizing inputs s with
  | done a => exact h.elim
  | call c k ih =>
      rcases h with hq | hrest
      · exact ⟨_, List.mem_cons_self, hq⟩
      · obtain ⟨e, he, hq⟩ := ih _ (hrest _ trivial) (fun n => inputs (n + 1)) _
        exact ⟨e, List.mem_cons_of_mem _ he, hq⟩

/-- The calls of a run take its inputs. -/
theorem run_inputs (effect : Effect ι ρ ε σ) (p : Prog ι ρ α) (inputs : ℕ → ε) (s : σ) :
    ∀ e ∈ (p.run effect inputs s).events, ∃ n, e.input = inputs n := by
  induction p generalizing inputs s with
  | done a => simp [run]
  | call c k ih =>
      intro e he
      rcases List.mem_cons.mp he with rfl | he
      · exact ⟨0, rfl⟩
      · obtain ⟨n, hn⟩ := ih _ _ _ e he
        exact ⟨n + 1, hn⟩

/-- The program makes the calls of `events`, receives their responses, and ends with the value.
Where the responses come from is left open. -/
inductive Ends : Prog ι ρ α → List (Event ι ρ ε) → α → Prop where
  | done (a : α) : Ends (.done a) [] a
  | call {c : ι} {k : ρ c → Prog ι ρ α} {events : List (Event ι ρ ε)} {a : α} (input : ε)
      (r : ρ c) : Ends (k r) events a → Ends (.call c k) (⟨c, input, r⟩ :: events) a

section Ends

variable {before after events : List (Event ι ρ ε)} {e : Event ι ρ ε}

/-- A program that has ended makes no call. -/
theorem not_ends_done {a b : α} : ¬ (Prog.done a : Prog ι ρ α).Ends (before ++ e :: after) b := by
  intro h
  generalize hevents : before ++ e :: after = events at h
  cases h
  simp at hevents

/-- A program that goes on with a function of its value has ended with that value. -/
theorem Ends.of_map {p : Prog ι ρ α} {f : α → β} {b : β}
    (h : (p >>= fun a => .done (f a)).Ends events b) : ∃ a, p.Ends events a ∧ f a = b := by
  induction p generalizing events with
  | done a =>
      cases h
      exact ⟨a, .done a, rfl⟩
  | call c k ih =>
      cases h with
      | call input r hrest =>
          obtain ⟨a, hends, ha⟩ := ih r hrest
          exact ⟨a, .call input r hends, ha⟩

/-- What holds of every call that a program can make holds of the calls it made. -/
theorem Ends.always {P : ι → Prop} {p : Prog ι ρ α} {a : α} (h : p.Ends events a)
    (hp : p.Always (fun _ _ => True) P) : ∀ e ∈ events, P e.call := by
  induction h with
  | done a => simp
  | call input r _ ih =>
      intro e he
      rcases List.mem_cons.mp he with rfl | he
      · exact hp.1
      · exact ih (hp.2 r trivial) e he

/-- A call that the first part of a sequence does not make is one of the rest. -/
theorem Ends.skip {p : Prog ι ρ α} {f : α → Prog ι ρ β} {b : β}
    (h : (p >>= f).Ends (before ++ e :: after) b)
    (hp : p.Always (fun _ _ => True) fun c => c ≠ e.call) :
    ∃ a first, (f a).Ends (first ++ e :: after) b := by
  induction p generalizing before with
  | done a => exact ⟨a, before, h⟩
  | call c k ih =>
      cases before with
      | nil =>
          cases h
          exact absurd rfl hp.1
      | cons first rest =>
          cases h with
          | call input r hrest => exact ih r hrest (hp.2 r trivial)

/-- A call that is not made again is followed by what the program does on its response. -/
theorem Ends.of_call {c : ι} {k : ρ c → Prog ι ρ α} {input : ε} {r : ρ c} {a : α}
    (h : (Prog.call c k).Ends (before ++ ⟨c, input, r⟩ :: after) a)
    (hk : ∀ r, (k r).Always (fun _ _ => True) fun c' => c' ≠ c) : (k r).Ends after a := by
  cases before with
  | nil =>
      cases h with
      | call input r hrest => exact hrest
  | cons first rest =>
      cases h with
      | call input' r' hrest =>
          have hlater := hrest.always (hk r') ⟨c, input, r⟩ (by simp)
          exact absurd rfl hlater

end Ends

end Prog

/-- Programs that share one environment state. -/
structure Pool (τ : Type) (ι : Type) (ρ : ι → Type) (σ α : Type) where
  shared : σ
  thread : τ → Prog ι ρ α

namespace Pool

variable [DecidableEq τ]

/-- Thread `l.1` makes its next call, which the environment answers in one atomic step. -/
def Step (effect : Effect ι ρ ε σ) (p : Pool τ ι ρ σ α) (l : τ × Event ι ρ ε)
    (p' : Pool τ ι ρ σ α) : Prop :=
  ∃ k, p.thread l.1 = .call l.2.call k ∧ Answers effect p.shared l.2 p'.shared ∧
    p'.thread = Function.update p.thread l.1 (k l.2.response)

/-- Every thread has ended. -/
def Quiescent (p : Pool τ ι ρ σ α) : Prop :=
  ∀ i, ∃ a, p.thread i = .done a

variable {effect : Effect ι ρ ε σ} {p p' : Pool τ ι ρ σ α} {history : List (τ × Event ι ρ ε)}

/-- An interleaving is an execution of the environment, in the global order of the calls. -/
theorem shared_execution (h : Execution (Step effect) p history p') :
    Execution (fun s l s' => Answers effect s l.2 s') p.shared history p'.shared := by
  induction h with
  | refl => exact .refl
  | snoc _ hstep ih =>
      obtain ⟨_, _, hanswer, _⟩ := hstep
      exact .snoc ih hanswer

/-- Run the pool on a schedule: which thread moves next, and under which input. A thread that has
ended does not move. -/
def schedule (effect : Effect ι ρ ε σ) :
    List (τ × ε) → Pool τ ι ρ σ α → List (τ × Event ι ρ ε) × Pool τ ι ρ σ α
  | [], p => ([], p)
  | (i, input) :: rest, p =>
      match p.thread i with
      | .done _ => schedule effect rest p
      | .call c k =>
          let answer := effect c input p.shared
          let later := schedule effect rest ⟨answer.2, Function.update p.thread i (k answer.1)⟩
          ((i, ⟨c, input, answer.1⟩) :: later.1, later.2)

/-- Every schedule gives an interleaving. -/
theorem schedule_execution (effect : Effect ι ρ ε σ) (plan : List (τ × ε))
    (p : Pool τ ι ρ σ α) :
    Execution (Step effect) p (schedule effect plan p).1 (schedule effect plan p).2 := by
  induction plan generalizing p with
  | nil => exact .refl
  | cons head rest ih =>
      obtain ⟨i, input⟩ := head
      rw [schedule]
      split
      · exact ih p
      · next c k hcall =>
          have hfirst : Step effect p (i, ⟨c, input, (effect c input p.shared).1⟩)
              ⟨(effect c input p.shared).2,
                Function.update p.thread i (k (effect c input p.shared).1)⟩ :=
            ⟨k, hcall, rfl, rfl⟩
          exact (Execution.single hfirst).trans (ih _)

/-- The steps of a schedule take its inputs. -/
theorem schedule_inputs (effect : Effect ι ρ ε σ) (plan : List (τ × ε)) (p : Pool τ ι ρ σ α) :
    ∀ l ∈ (schedule effect plan p).1, (l.1, l.2.input) ∈ plan := by
  induction plan generalizing p with
  | nil => simp [schedule]
  | cons head rest ih =>
      obtain ⟨i, input⟩ := head
      intro l hl
      rw [schedule] at hl
      split at hl
      · exact List.mem_cons_of_mem _ (ih p l hl)
      · rcases List.mem_cons.mp hl with rfl | hl
        · exact List.mem_cons_self
        · exact List.mem_cons_of_mem _ (ih _ l hl)

/-- A property of every call that thread `i` can make, as long as its own responses are as assumed,
holds of every call it made, and of every call it can still make. -/
theorem always_thread {A : (c : ι) → ρ c → Prop} {P : ι → Prop} {i : τ}
    (h : Execution (Step effect) p history p')
    (hallowed : ∀ e, (i, e) ∈ history → A e.call e.response)
    (hstart : (p.thread i).Always A P) :
    (∀ e, (i, e) ∈ history → P e.call) ∧ (p'.thread i).Always A P := by
  induction h with
  | refl => exact ⟨by simp, hstart⟩
  | @snoc before middle finish label _ hstep ih =>
      obtain ⟨hmade, hmiddle⟩ := ih fun e he => hallowed e (by simp [he])
      obtain ⟨j, e⟩ := label
      obtain ⟨k, hcall, _, hthreads⟩ := hstep
      rw [hthreads]
      by_cases hi : i = j
      · subst hi
        rw [hcall] at hmiddle
        rw [Function.update_self]
        refine ⟨fun e' he' => ?_, hmiddle.2 _ (hallowed e (by simp))⟩
        rcases List.mem_append.mp he' with he' | he'
        · exact hmade e' he'
        · obtain rfl : e' = e := congrArg Prod.snd (List.mem_singleton.mp he')
          exact hmiddle.1
      · rw [Function.update_of_ne hi]
        refine ⟨fun e' he' => ?_, hmiddle⟩
        rcases List.mem_append.mp he' with he' | he'
        · exact hmade e' he'
        · exact absurd (congrArg Prod.fst (List.mem_singleton.mp he')) hi

/-- A property of every call that each thread can make holds of every call it made, and of every
call it can still make. -/
theorem always {A : (c : ι) → ρ c → Prop} {P : τ → ι → Prop}
    (h : Execution (Step effect) p history p')
    (hallowed : ∀ l ∈ history, A l.2.call l.2.response)
    (hstart : ∀ i, (p.thread i).Always A (P i)) :
    (∀ l ∈ history, P l.1 l.2.call) ∧ ∀ i, (p'.thread i).Always A (P i) := by
  have hthread : ∀ i, (∀ e, (i, e) ∈ history → P i e.call) ∧ (p'.thread i).Always A (P i) :=
    fun i => always_thread h (fun e he => hallowed (i, e) he) (hstart i)
  exact ⟨fun l hl => (hthread l.1).1 l.2 hl, fun i => (hthread i).2⟩

/-- A call that thread `i` cannot avoid is in the history or still ahead. -/
theorem inevitably_or {A : (c : ι) → ρ c → Prop} {Q : ι → Prop} {i : τ}
    (h : Execution (Step effect) p history p')
    (hallowed : ∀ l ∈ history, A l.2.call l.2.response)
    (hstart : (p.thread i).Inevitably A Q) :
    (∃ l ∈ history, l.1 = i ∧ Q l.2.call) ∨ (p'.thread i).Inevitably A Q := by
  induction h with
  | refl => exact .inr hstart
  | @snoc before middle finish label _ hstep ih =>
      rcases ih fun l hl => hallowed l (by simp [hl]) with hmade | hahead
      · obtain ⟨l, hl, hq⟩ := hmade
        exact .inl ⟨l, by simp [hl], hq⟩
      obtain ⟨k, hcall, _, hthreads⟩ := hstep
      rw [hthreads]
      by_cases hi : i = label.1
      · subst hi
        rw [hcall] at hahead
        rcases hahead with hq | hrest
        · exact .inl ⟨label, by simp, rfl, hq⟩
        · rw [Function.update_self]
          exact .inr (hrest _ (hallowed label (by simp)))
      · rw [Function.update_of_ne hi]
        exact .inr hahead

/-- Once thread `i` has ended, a call that it could not avoid is in the history. -/
theorem inevitably {A : (c : ι) → ρ c → Prop} {Q : ι → Prop} {i : τ} {a : α}
    (h : Execution (Step effect) p history p')
    (hallowed : ∀ l ∈ history, A l.2.call l.2.response)
    (hstart : (p.thread i).Inevitably A Q) (hend : p'.thread i = .done a) :
    ∃ l ∈ history, l.1 = i ∧ Q l.2.call := by
  rcases inevitably_or h hallowed hstart with hmade | hahead
  · exact hmade
  · rw [hend] at hahead
    exact hahead.elim

/-- A thread that has ended makes no call, and keeps its value. -/
theorem ended {i : τ} {a : α} (h : Execution (Step effect) p history p')
    (hend : p.thread i = .done a) : (∀ e, (i, e) ∉ history) ∧ p'.thread i = .done a := by
  induction h with
  | refl => exact ⟨fun _ => List.not_mem_nil, hend⟩
  | @snoc before middle finish label _ hstep ih =>
      obtain ⟨hnone, hdone⟩ := ih
      obtain ⟨k, hcall, -, hthread⟩ := hstep
      have hother : i ≠ label.1 := by
        rintro rfl
        rw [hdone] at hcall
        cases hcall
      refine ⟨fun e he => ?_, ?_⟩
      · rcases List.mem_append.mp he with hbefore | hlast
        · exact hnone e hbefore
        · exact hother (congrArg Prod.fst (List.mem_singleton.mp hlast))
      · rw [hthread, Function.update_of_ne hother, hdone]

/-- The threads that make no call in a history do not matter to it: with other programs in their
place it is a history as before, with the same state at its end. -/
theorem execution_of_agree {q : Pool τ ι ρ σ α} (h : Execution (Step effect) p history p')
    (hshared : q.shared = p.shared)
    (hagree : ∀ i, q.thread i = p.thread i ∨ ∀ e, (i, e) ∉ history) :
    ∃ q', Execution (Step effect) q history q' ∧ q'.shared = p'.shared ∧
      ∀ i, q.thread i = p.thread i → q'.thread i = p'.thread i := by
  induction h with
  | refl => exact ⟨q, .refl, hshared, fun _ hi => hi⟩
  | @snoc before middle finish label _ hstep ih =>
      have hbefore : ∀ i, q.thread i = p.thread i ∨ ∀ e, (i, e) ∉ before := by
        intro i
        exact (hagree i).imp_right fun hnone e he => hnone e (List.mem_append_left _ he)
      obtain ⟨q', hexec, hstate, hthreads⟩ := ih hbefore
      obtain ⟨k, hcall, heffect, hnext⟩ := hstep
      have hcaller : q.thread label.1 = p.thread label.1 :=
        (hagree label.1).resolve_right fun hnone => hnone label.2 (by simp)
      refine ⟨⟨finish.shared, Function.update q'.thread label.1 (k label.2.response)⟩,
        hexec.snoc ⟨k, ?_, ?_, rfl⟩, rfl, ?_⟩
      · rw [hthreads _ hcaller, hcall]
      · rw [hstate]
        exact heffect
      · intro i hi
        rw [hnext]
        by_cases hj : i = label.1
        · subst hj
          simp only [Function.update_self]
        · simp only [Function.update_of_ne hj, hthreads i hi]

/-- The events of a thread, oldest first. -/
def own (i : τ) (history : List (τ × Event ι ρ ε)) : List (Event ι ρ ε) :=
  (history.filter fun l => l.1 = i).map Prod.snd

theorem own_append (i : τ) (first rest : List (τ × Event ι ρ ε)) :
    own i (first ++ rest) = own i first ++ own i rest := by
  simp [own]

theorem own_cons_self (i : τ) (e : Event ι ρ ε) (rest : List (τ × Event ι ρ ε)) :
    own i ((i, e) :: rest) = e :: own i rest := by
  simp [own]

theorem own_cons_of_ne {i j : τ} (h : j ≠ i) (e : Event ι ρ ε) (rest : List (τ × Event ι ρ ε)) :
    own i ((j, e) :: rest) = own i rest := by
  simp [own, h]

/-- The events of a thread and what it still does lead its program to its value. -/
theorem ends_of_rest (h : Execution (Step effect) p history p') {i : τ} {a : α}
    {rest : List (Event ι ρ ε)} (hrest : (p'.thread i).Ends rest a) :
    (p.thread i).Ends (own i history ++ rest) a := by
  induction h generalizing rest with
  | refl => exact hrest
  | @snoc before middle finish label _ hstep ih =>
      obtain ⟨j, e⟩ := label
      obtain ⟨k, hcall, _, hthreads⟩ := hstep
      rw [hthreads] at hrest
      rw [own_append, List.append_assoc]
      by_cases hj : j = i
      · subst hj
        rw [Function.update_self] at hrest
        rw [own_cons_self]
        apply ih
        rw [hcall]
        exact .call e.input e.response hrest
      · rw [Function.update_of_ne (Ne.symm hj)] at hrest
        rw [own_cons_of_ne hj]
        exact ih hrest

/-- The events of a thread that has ended lead its program to its value. -/
theorem ends (h : Execution (Step effect) p history p') {i : τ} {a : α}
    (hend : p'.thread i = .done a) : (p.thread i).Ends (own i history) a := by
  have hrest : (p'.thread i).Ends ([] : List (Event ι ρ ε)) a := hend ▸ .done a
  have hends := ends_of_rest h hrest
  rwa [List.append_nil] at hends

end Pool

end Interaction
