import Mathlib.Data.List.Forall2
import MutualCloud.Library.Interaction

/-!
# Two runs that look the same

`Likeness` says which calls and which responses look the same to an observer. Two programs are
`Alike` when they make like calls as long as they receive like responses, and end with related
values. A program all of whose responses the observer sees in full is like itself (`alike_self`),
and programs with a secret in their data are compared step by step (`Alike.bind`).

`Pool.schedule_alike` is the rule for interleavings: when the environment answers like calls in like
states alike, two pools of alike programs that run on one schedule make like calls throughout.
-/

namespace Interaction

variable {ι : Type} {ρ : ι → Type} {ε σ α β γ δ τ : Type}

/-- Which calls look the same, and which responses to two calls do. -/
structure Likeness (ι : Type) (ρ : ι → Type) where
  call : ι → ι → Prop
  response : (c c' : ι) → ρ c → ρ c' → Prop

/-- The environment answers like calls in like states alike. -/
def Likeness.Respected (L : Likeness ι ρ) (R : σ → σ → Prop) (effect : Effect ι ρ ε σ) : Prop :=
  ∀ c c' input s s', L.call c c' → R s s' →
    L.response c c' (effect c input s).1 (effect c' input s').1 ∧
      R (effect c input s).2 (effect c' input s').2

/-- The observer sees the call, and all of its response. -/
def Likeness.Visible (L : Likeness ι ρ) (c : ι) : Prop :=
  L.call c c ∧ ∀ r r', L.response c c r r' → r = r'

/-- The two events have one input and look the same. -/
structure Likeness.Events (L : Likeness ι ρ) (e e' : Event ι ρ ε) : Prop where
  input : e.input = e'.input
  call : L.call e.call e'.call
  response : L.response e.call e'.call e.response e'.response

namespace Prog

/-- The programs make like calls as long as they receive like responses, and end with values that
`V` relates. -/
def Alike (L : Likeness ι ρ) (V : α → β → Prop) : Prog ι ρ α → Prog ι ρ β → Prop
  | .done a, .done b => V a b
  | .call c k, .call c' k' =>
      L.call c c' ∧ ∀ r r', L.response c c' r r' → (k r).Alike L V (k' r')
  | .done _, .call _ _ | .call _ _, .done _ => False

variable {L : Likeness ι ρ}

/-- Sequences of alike parts are alike. -/
theorem Alike.bind {V : α → β → Prop} {W : γ → δ → Prop} {p : Prog ι ρ α} {q : Prog ι ρ β}
    {f : α → Prog ι ρ γ} {g : β → Prog ι ρ δ} (h : p.Alike L V q)
    (hrest : ∀ a b, V a b → (f a).Alike L W (g b)) : (p >>= f).Alike L W (q >>= g) := by
  induction p generalizing q with
  | done a =>
      cases q with
      | done b => exact hrest a b h
      | call c' k' => exact h.elim
  | call c k ih =>
      cases q with
      | done b => exact h.elim
      | call c' k' => exact ⟨h.1, fun r r' hr => ih r (h.2 r r' hr)⟩

/-- The relation of the values may be weakened. -/
theorem Alike.mono {V W : α → β → Prop} {p : Prog ι ρ α} {q : Prog ι ρ β} (h : p.Alike L V q)
    (himp : ∀ a b, V a b → W a b) : p.Alike L W q := by
  induction p generalizing q with
  | done a =>
      cases q with
      | done b => exact himp a b h
      | call c' k' => exact h.elim
  | call c k ih =>
      cases q with
      | done b => exact h.elim
      | call c' k' => exact ⟨h.1, fun r r' hr => ih r (h.2 r r' hr)⟩

/-- A program whose calls are visible is like itself. -/
theorem alike_self {p : Prog ι ρ α} (h : p.Always (fun _ _ => True) L.Visible) :
    p.Alike L Eq p := by
  induction p with
  | done a => rfl
  | call c k ih =>
      refine ⟨h.1.1, fun r r' hr => ?_⟩
      obtain rfl := h.1.2 r r' hr
      exact ih r (h.2 r trivial)

/-- A sequence is like itself when both parts are. -/
theorem Alike.bind_self {p : Prog ι ρ α} {f : α → Prog ι ρ β} (h : p.Alike L Eq p)
    (hrest : ∀ a, (f a).Alike L Eq (f a)) : (p >>= f).Alike L Eq (p >>= f) :=
  h.bind fun a _ hab => hab ▸ hrest a

/-- A loop is like itself when its body is. -/
theorem alike_forM {f : α → Prog ι ρ PUnit} (h : ∀ a, (f a).Alike L Eq (f a)) (xs : List α) :
    (xs.forM f).Alike L Eq (xs.forM f) := by
  induction xs with
  | nil => rfl
  | cons x rest ih => exact (h x).bind_self fun _ => ih

/-- Alike programs over a part of the calls are alike over a larger set. -/
theorem Alike.embed {ι' : Type} {ρ' : ι' → Type} {L' : Likeness ι' ρ'} {f : ι → ι'}
    {g : (c : ι) → ρ' (f c) → ρ c} (hcall : ∀ c c', L.call c c' → L'.call (f c) (f c'))
    (hresponse : ∀ c c' r r', L'.response (f c) (f c') r r' → L.response c c' (g c r) (g c' r'))
    {V : α → β → Prop} {p : Prog ι ρ α} {q : Prog ι ρ β} (h : p.Alike L V q) :
    (p.embed f g).Alike L' V (q.embed f g) := by
  induction p generalizing q with
  | done a =>
      cases q with
      | done b => exact h
      | call c' k' => exact h.elim
  | call c k ih =>
      cases q with
      | done b => exact h.elim
      | call c' k' =>
          refine ⟨hcall c c' h.1, fun r r' hr => ?_⟩
          exact ih (g c r) (h.2 _ _ (hresponse c c' r r' hr))

/-- Alike programs have ended with the same value, or none of them has ended. -/
theorem Alike.done_iff {p q : Prog ι ρ α} (h : p.Alike L Eq q) (a : α) :
    p = .done a ↔ q = .done a := by
  cases p with
  | done b =>
      cases q with
      | done b' =>
          obtain rfl : b = b' := h
          exact Iff.rfl
      | call c' k' => exact h.elim
  | call c k =>
      cases q with
      | done b' => exact h.elim
      | call c' k' => exact ⟨nofun, nofun⟩

end Prog

namespace Pool

/-- Pools in like states with alike programs. -/
structure Alike (L : Likeness ι ρ) (R : σ → σ → Prop) (p p' : Pool τ ι ρ σ α) : Prop where
  shared : R p.shared p'.shared
  thread : ∀ i, (p.thread i).Alike L Eq (p'.thread i)

variable [DecidableEq τ] {L : Likeness ι ρ} {R : σ → σ → Prop} {effect : Effect ι ρ ε σ}

/-- After a step of one thread, alike pools are alike. -/
theorem Alike.step {p p' : Pool τ ι ρ σ α} (h : p.Alike L R p') {i : τ} {s s' : σ}
    {next next' : Prog ι ρ α} (hs : R s s') (hnext : next.Alike L Eq next') :
    Alike L R ⟨s, Function.update p.thread i next⟩ ⟨s', Function.update p'.thread i next'⟩ := by
  refine ⟨hs, fun j => ?_⟩
  by_cases hj : j = i
  · subst hj
    show Prog.Alike L Eq (Function.update p.thread j next j) (Function.update p'.thread j next' j)
    rw [Function.update_self, Function.update_self]
    exact hnext
  · show Prog.Alike L Eq (Function.update p.thread i next j) (Function.update p'.thread i next' j)
    rw [Function.update_of_ne hj, Function.update_of_ne hj]
    exact h.thread j

/-- On one schedule alike pools make like calls in the same order, and stay alike. -/
theorem schedule_alike (heffect : L.Respected R effect) (plan : List (τ × ε))
    {p p' : Pool τ ι ρ σ α} (h : p.Alike L R p') :
    List.Forall₂ (fun l l' => l.1 = l'.1 ∧ L.Events l.2 l'.2) (schedule effect plan p).1
        (schedule effect plan p').1 ∧
      (schedule effect plan p).2.Alike L R (schedule effect plan p').2 := by
  induction plan generalizing p p' with
  | nil => exact ⟨.nil, h⟩
  | cons head rest ih =>
      obtain ⟨i, input⟩ := head
      have hi := h.thread i
      rw [schedule, schedule]
      cases hp : p.thread i with
      | done a =>
          cases hp' : p'.thread i with
          | done a' => exact ih h
          | call c' k' =>
              rw [hp, hp'] at hi
              exact hi.elim
      | call c k =>
          cases hp' : p'.thread i with
          | done a' =>
              rw [hp, hp'] at hi
              exact hi.elim
          | call c' k' =>
              rw [hp, hp'] at hi
              obtain ⟨hcall, hrest⟩ := hi
              obtain ⟨hresponse, hstate⟩ := heffect c c' input _ _ hcall h.shared
              obtain ⟨hevents, hlater⟩ := ih (h.step hstate (hrest _ _ hresponse))
              exact ⟨.cons ⟨rfl, rfl, hcall, hresponse⟩ hevents, hlater⟩

end Pool

end Interaction
