import MutualCloud.Library.Interaction

/-!
# Postconditions of programs that run alone

`p.Ensures effect R s Q` says that `p`, run alone from the state `s`, ends with a value and a state
that satisfy `Q`, whatever inputs in `R` its calls are answered under. There is one rule for each
way to build a program: `ensures_bind` for a sequence, with two special cases for a first part
whose outcome is known, `ensures_forM` for a loop over a list, and `ensures_embed` for a program
that acts on a part of a larger state. `ensures_of_always` is the rule for what every call keeps.
`Ensures.run` leads back from the rules to runs.
-/

namespace Interaction

/-- A part of a larger state, which can be read and replaced. -/
structure Lens (σ' σ : Type) where
  view : σ' → σ
  put : σ' → σ → σ'
  view_put : ∀ s t, view (put s t) = t
  put_view : ∀ s, put s (view s) = s
  put_put : ∀ s t t', put (put s t) t' = put s t'

namespace Prog

variable {ι : Type} {ρ : ι → Type} {ε σ α β : Type}

/-- Run from `s` under inputs in `R`, the program ends in `Q`. -/
def Ensures (effect : Effect ι ρ ε σ) (R : ε → Prop) : Prog ι ρ α → σ → (α → σ → Prop) → Prop
  | .done a, s, Q => Q a s
  | .call c k, s, Q =>
      ∀ input, R input →
        (k (effect c input s).1).Ensures effect R (effect c input s).2 Q

variable {effect : Effect ι ρ ε σ} {R : ε → Prop}

/-- A postcondition may be weakened. -/
theorem Ensures.mono {p : Prog ι ρ α} {s : σ} {Q Q' : α → σ → Prop}
    (h : p.Ensures effect R s Q) (himp : ∀ a s', Q a s' → Q' a s') : p.Ensures effect R s Q' := by
  induction p generalizing s with
  | done a => exact himp a s h
  | call c k ih =>
      intro input hinput
      exact ih _ (h input hinput)

/-- What is ensured under some inputs is ensured under fewer. -/
theorem Ensures.inputs_mono {R' : ε → Prop} {p : Prog ι ρ α} {s : σ} {Q : α → σ → Prop}
    (h : p.Ensures effect R s Q) (himp : ∀ input, R' input → R input) :
    p.Ensures effect R' s Q := by
  induction p generalizing s with
  | done a => exact h
  | call c k ih => exact fun input hinput => ih _ (h input (himp input hinput))

/-- Two postconditions hold together. -/
theorem Ensures.and {p : Prog ι ρ α} {s : σ} {Q Q' : α → σ → Prop}
    (h : p.Ensures effect R s Q) (h' : p.Ensures effect R s Q') :
    p.Ensures effect R s fun a s' => Q a s' ∧ Q' a s' := by
  induction p generalizing s with
  | done a => exact ⟨h, h'⟩
  | call c k ih =>
      intro input hinput
      exact ih _ (h input hinput) (h' input hinput)

/-- What holds of every value and state is ensured by every program. -/
theorem ensures_of_forall {p : Prog ι ρ α} {s : σ} {Q : α → σ → Prop} (h : ∀ a s', Q a s') :
    p.Ensures effect R s Q := by
  induction p generalizing s with
  | done a => exact h a s
  | call c k ih => exact fun input _ => ih _

/-- What every call of a program keeps holds after it. -/
theorem ensures_of_always {P : ι → Prop} {I : σ → Prop} {p : Prog ι ρ α} {s : σ}
    (h : p.Always (fun _ _ => True) P)
    (hkeep : ∀ c input s, P c → I s → I (effect c input s).2) (hs : I s) :
    p.Ensures effect R s fun _ s' => I s' := by
  induction p generalizing s with
  | done a => exact hs
  | call c k ih =>
      intro input _
      exact ih _ (h.2 _ trivial) (hkeep c input s h.1 hs)

/-- The state between the two parts of a sequence satisfies the postcondition of the first. -/
theorem ensures_bind {p : Prog ι ρ α} {f : α → Prog ι ρ β} {s : σ} {Q : β → σ → Prop}
    (h : p.Ensures effect R s fun a s' => (f a).Ensures effect R s' Q) :
    (p >>= f).Ensures effect R s Q := by
  induction p generalizing s with
  | done a => exact h
  | call c k ih =>
      rw [call_bind]
      intro input hinput
      exact ih _ (h input hinput)

/-- A sequence whose first part leads to one state. -/
theorem ensures_bind_state {p : Prog ι ρ α} {f : α → Prog ι ρ β} {s t : σ} {Q : β → σ → Prop}
    (h : p.Ensures effect R s fun _ s' => s' = t) (hrest : ∀ a, (f a).Ensures effect R t Q) :
    (p >>= f).Ensures effect R s Q := by
  refine ensures_bind (h.mono fun a s' hs' => ?_)
  rw [hs']
  exact hrest a

/-- A sequence whose first part leads to one value and state. -/
theorem ensures_bind_eq {p : Prog ι ρ α} {f : α → Prog ι ρ β} {s t : σ} {v : α}
    {Q : β → σ → Prop} (h : p.Ensures effect R s fun a s' => a = v ∧ s' = t)
    (hrest : (f v).Ensures effect R t Q) : (p >>= f).Ensures effect R s Q := by
  refine ensures_bind (h.mono fun a s' heq => ?_)
  rw [heq.1, heq.2]
  exact hrest

/-- A loop over a list keeps an invariant that may speak of the elements already treated. -/
theorem ensures_forM {f : β → Prog ι ρ PUnit} {xs : List β} {I : List β → σ → Prop} {s : σ}
    (hstart : I [] s)
    (hbody : ∀ before x s', x ∈ xs → I before s' →
      (f x).Ensures effect R s' fun _ s'' => I (before ++ [x]) s'') :
    (xs.forM f).Ensures effect R s fun _ s' => I xs s' := by
  -- the elements treated so far and those still to come
  suffices hrest : ∀ (rest before : List β) (s' : σ), (∀ x ∈ rest, x ∈ xs) → I before s' →
      (rest.forM f).Ensures effect R s' fun _ s'' => I (before ++ rest) s'' from
    hrest xs [] s (fun _ hx => hx) hstart
  intro rest
  induction rest with
  | nil =>
      intro before s' _ hs'
      rw [List.append_nil]
      exact hs'
  | cons x rest ih =>
      intro before s' hmem hs'
      refine ensures_bind ((hbody before x s' (hmem x List.mem_cons_self) hs').mono ?_)
      intro _ s'' hs''
      have hlater := ih (before ++ [x]) s'' (fun y hy => hmem y (List.mem_cons_of_mem x hy)) hs''
      rw [List.append_assoc] at hlater
      exact hlater

/-- A program over a part of the calls, which act on a part of the state. -/
theorem ensures_embed {ι' : Type} {ρ' : ι' → Type} {ε' σ' : Type} {f : ι → ι'}
    {g : (c : ι) → ρ' (f c) → ρ c} {effect' : Effect ι' ρ' ε' σ'} {R' : ε' → Prop}
    (part : Lens σ' σ) (input' : ε' → ε) (hinput : ∀ input, R' input → R (input' input))
    (hanswer : ∀ c input s,
      g c (effect' (f c) input s).1 = (effect c (input' input) (part.view s)).1)
    (hstate : ∀ c input s,
      (effect' (f c) input s).2 = part.put s (effect c (input' input) (part.view s)).2)
    {p : Prog ι ρ α} {s : σ'} {Q : α → σ' → Prop}
    (h : p.Ensures effect R (part.view s) fun a t => Q a (part.put s t)) :
    (p.embed f g).Ensures effect' R' s Q := by
  induction p generalizing s with
  | done a =>
      have hdone : Q a (part.put s (part.view s)) := h
      rw [part.put_view] at hdone
      exact hdone
  | call c k ih =>
      intro input hin
      have hrest := h (input' input) (hinput input hin)
      show ((k (g c (effect' (f c) input s).1)).embed f g).Ensures effect' R'
        (effect' (f c) input s).2 Q
      rw [hanswer, hstate]
      apply ih
      rw [part.view_put]
      refine hrest.mono fun a t hq => ?_
      rw [part.put_put]
      exact hq

/-- A run of a program that acts on a part of the state changes that part only. -/
theorem run_embed_state {ι' : Type} {ρ' : ι' → Type} {ε' σ' : Type} {f : ι → ι'}
    {g : (c : ι) → ρ' (f c) → ρ c} {effect' : Effect ι' ρ' ε' σ'}
    (part : Lens σ' σ) (input' : ε' → ε)
    (hanswer : ∀ c input s,
      g c (effect' (f c) input s).1 = (effect c (input' input) (part.view s)).1)
    (hstate : ∀ c input s,
      (effect' (f c) input s).2 = part.put s (effect c (input' input) (part.view s)).2)
    (p : Prog ι ρ α) (inputs : ℕ → ε') (s : σ') :
    ((p.embed f g).run effect' inputs s).state =
      part.put s (p.run effect (fun n => input' (inputs n)) (part.view s)).state := by
  induction p generalizing inputs s with
  | done a => exact (part.put_view s).symm
  | call c k ih =>
      show ((k (g c (effect' (f c) (inputs 0) s).1)).embed f g |>.run effect'
        (fun n => inputs (n + 1)) (effect' (f c) (inputs 0) s).2).state = _
      rw [hanswer, hstate, ih, part.view_put, part.put_put]
      rfl

/-- A run over a state that stands for another one: when every step is answered as there and leaves
what stands for the state after it, so does every run. -/
theorem run_of_steps {ε' σ' : Type} {effect' : Effect ι ρ ε' σ'} {R' : ε' → Prop}
    (rep : σ → σ') (input' : ε' → ε)
    (hstep : ∀ c input s, R' input → effect' c input (rep s) =
      ((effect c (input' input) s).1, rep (effect c (input' input) s).2))
    (p : Prog ι ρ α) {inputs : ℕ → ε'} (hinputs : ∀ n, R' (inputs n)) (s : σ) :
    (p.run effect' inputs (rep s)).value = (p.run effect (fun n => input' (inputs n)) s).value ∧
      (p.run effect' inputs (rep s)).state =
        rep (p.run effect (fun n => input' (inputs n)) s).state := by
  induction p generalizing inputs s with
  | done a => exact ⟨rfl, rfl⟩
  | call c k ih =>
      simp only [Prog.run]
      rw [hstep c (inputs 0) s (hinputs 0)]
      exact ih _ (fun n => hinputs (n + 1)) _

/-- What a program ensures holds after its runs. -/
theorem Ensures.run {p : Prog ι ρ α} {s : σ} {Q : α → σ → Prop} (h : p.Ensures effect R s Q)
    {inputs : ℕ → ε} (hinputs : ∀ n, R (inputs n)) :
    Q (p.run effect inputs s).value (p.run effect inputs s).state := by
  induction p generalizing s inputs with
  | done a => exact h
  | call c k ih => exact ih _ (h (inputs 0) (hinputs 0)) fun n => hinputs (n + 1)

/-- After a run of a sequence the postcondition may also speak of the value in the middle. -/
theorem Ensures.run_bind {p : Prog ι ρ α} {f : α → Prog ι ρ β} {s : σ} {Q : α → β → σ → Prop}
    (h : p.Ensures effect R s fun a s' => (f a).Ensures effect R s' (Q a)) {inputs : ℕ → ε}
    (hinputs : ∀ n, R (inputs n)) :
    Q (p.run effect inputs s).value ((p >>= f).run effect inputs s).value
      ((p >>= f).run effect inputs s).state := by
  rw [Prog.run_bind]
  exact (h.run hinputs).run fun n => hinputs (n + (p.run effect inputs s).events.length)

end Prog

end Interaction
