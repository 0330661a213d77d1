import MutualCloud.Library.Postcondition

/-!
# Programs one after another

`p.Through effect R P s Q` adds to a postcondition what holds on the way: every call of `p`
satisfies `P` in the state in which it is made. Its rules are those of `Ensures`. `Prog.trace` lists
the calls of a run with these states, and `Through.trace` leads from the rules to it.

`observe` is what is seen while items act one after another, each from the state that the one
before it left. A property of all that is seen is a condition on each item (`each_meets_observed`),
and `each_meets_congr` replaces it by another that is the same while an invariant holds.
-/

namespace Interaction

namespace Prog

variable {ι : Type} {ρ : ι → Type} {ε σ α β : Type}

/-- The calls of a run, each with the state in which it is made. -/
def trace (effect : Effect ι ρ ε σ) : Prog ι ρ α → (ℕ → ε) → σ → List (σ × ι)
  | .done _, _, _ => []
  | .call c k, inputs, s =>
      let answer := effect c (inputs 0) s
      (s, c) :: (k answer.1).trace effect (fun n => inputs (n + 1)) answer.2

/-- The states of a run: those in which its calls are made, and the last one. -/
def visited (effect : Effect ι ρ ε σ) (p : Prog ι ρ α) (inputs : ℕ → ε) (s : σ) : List σ :=
  (p.trace effect inputs s).map Prod.fst ++ [(p.run effect inputs s).state]

theorem visited_call (effect : Effect ι ρ ε σ) (c : ι) (k : ρ c → Prog ι ρ α) (inputs : ℕ → ε)
    (s : σ) : (call c k).visited effect inputs s =
      s :: (k (effect c (inputs 0) s).1).visited effect (fun n => inputs (n + 1))
        (effect c (inputs 0) s).2 := rfl

/-- The last state of a run is one of its states. -/
theorem run_state_mem_visited (effect : Effect ι ρ ε σ) (p : Prog ι ρ α) (inputs : ℕ → ε) (s : σ) :
    (p.run effect inputs s).state ∈ p.visited effect inputs s :=
  List.mem_append_right _ List.mem_cons_self

/-- Run from `s` under inputs in `R`, every call satisfies `P` in the state in which it is made, and
the program ends in `Q`. -/
def Through (effect : Effect ι ρ ε σ) (R : ε → Prop) (P : σ → ι → Prop) :
    Prog ι ρ α → σ → (α → σ → Prop) → Prop
  | .done a, s, Q => Q a s
  | .call c k, s, Q =>
      P s c ∧ ∀ input, R input →
        (k (effect c input s).1).Through effect R P (effect c input s).2 Q

variable {effect : Effect ι ρ ε σ} {R : ε → Prop} {P : σ → ι → Prop}

/-- A postcondition may be weakened. -/
theorem Through.mono {p : Prog ι ρ α} {s : σ} {Q Q' : α → σ → Prop}
    (h : p.Through effect R P s Q) (himp : ∀ a s', Q a s' → Q' a s') :
    p.Through effect R P s Q' := by
  induction p generalizing s with
  | done a => exact himp a s h
  | call c k ih => exact ⟨h.1, fun input hinput => ih _ (h.2 input hinput)⟩

/-- The state between the two parts of a sequence satisfies the postcondition of the first. -/
theorem through_bind {p : Prog ι ρ α} {f : α → Prog ι ρ β} {s : σ} {Q : β → σ → Prop}
    (h : p.Through effect R P s fun a s' => (f a).Through effect R P s' Q) :
    (p >>= f).Through effect R P s Q := by
  induction p generalizing s with
  | done a => exact h
  | call c k ih =>
      rw [call_bind]
      exact ⟨h.1, fun input hinput => ih _ (h.2 input hinput)⟩

/-- A sequence whose second part may start in any state. -/
theorem through_bind_any {p : Prog ι ρ α} {f : α → Prog ι ρ β} {s : σ} {Q : β → σ → Prop}
    (h : p.Through effect R P s fun _ _ => True)
    (hrest : ∀ a s', (f a).Through effect R P s' Q) : (p >>= f).Through effect R P s Q :=
  through_bind (h.mono fun a s' _ => hrest a s')

/-- A sequence whose first part leads to one state. -/
theorem through_bind_state {p : Prog ι ρ α} {f : α → Prog ι ρ β} {s t : σ} {Q : β → σ → Prop}
    (h : p.Through effect R P s fun _ s' => s' = t)
    (hrest : ∀ a, (f a).Through effect R P t Q) : (p >>= f).Through effect R P s Q := by
  refine through_bind (h.mono fun a s' hs' => ?_)
  rw [hs']
  exact hrest a

/-- A sequence whose first part leads to one value and state. -/
theorem through_bind_eq {p : Prog ι ρ α} {f : α → Prog ι ρ β} {s t : σ} {v : α}
    {Q : β → σ → Prop} (h : p.Through effect R P s fun a s' => a = v ∧ s' = t)
    (hrest : (f v).Through effect R P t Q) : (p >>= f).Through effect R P s Q := by
  refine through_bind (h.mono fun a s' heq => ?_)
  rw [heq.1, heq.2]
  exact hrest

/-- What every call of a program keeps holds on the way and after it, together with what the program
ensures. -/
theorem Ensures.through {P' : ι → Prop} {I : σ → Prop} {p : Prog ι ρ α} {s : σ}
    {Q : α → σ → Prop} (h : p.Ensures effect R s Q) (halways : p.Always (fun _ _ => True) P')
    (hkeep : ∀ c input s, P' c → I s → I (effect c input s).2)
    (hstep : ∀ c s, P' c → I s → P s c) (hs : I s) :
    p.Through effect R P s fun a s' => I s' ∧ Q a s' := by
  induction p generalizing s with
  | done a => exact ⟨hs, h⟩
  | call c k ih =>
      refine ⟨hstep c s halways.1 hs, fun input hinput => ?_⟩
      exact ih _ (h input hinput) (halways.2 _ trivial) (hkeep c input s halways.1 hs)

/-- What every call of a program keeps holds on the way and after it. -/
theorem through_of_always {P' : ι → Prop} {I : σ → Prop} {p : Prog ι ρ α} {s : σ}
    (halways : p.Always (fun _ _ => True) P')
    (hkeep : ∀ c input s, P' c → I s → I (effect c input s).2)
    (hstep : ∀ c s, P' c → I s → P s c) (hs : I s) :
    p.Through effect R P s fun _ s' => I s' :=
  ((ensures_of_always halways hkeep hs).through halways hkeep hstep hs).mono fun _ _ h => h.1

/-- A loop over a list keeps an invariant. -/
theorem through_forM {f : β → Prog ι ρ PUnit} {xs : List β} {I : σ → Prop} {s : σ} (hs : I s)
    (hbody : ∀ x s', I s' → (f x).Through effect R P s' fun _ s'' => I s'') :
    (xs.forM f).Through effect R P s fun _ s' => I s' := by
  induction xs generalizing s with
  | nil => exact hs
  | cons x rest ih => exact through_bind ((hbody x s hs).mono fun _ _ hs' => ih hs')

/-- A program over a part of the calls, which act on a part of the state. -/
theorem through_embed {ι' : Type} {ρ' : ι' → Type} {ε' σ' : Type} {f : ι → ι'}
    {g : (c : ι) → ρ' (f c) → ρ c} {effect' : Effect ι' ρ' ε' σ'} {R' : ε' → Prop}
    {P' : σ' → ι' → Prop}
    (part : Lens σ' σ) (input' : ε' → ε) (hinput : ∀ input, R' input → R (input' input))
    (hanswer : ∀ c input s,
      g c (effect' (f c) input s).1 = (effect c (input' input) (part.view s)).1)
    (hstate : ∀ c input s,
      (effect' (f c) input s).2 = part.put s (effect c (input' input) (part.view s)).2)
    (hstep : ∀ c s, P (part.view s) c → P' s (f c))
    {p : Prog ι ρ α} {s : σ'} {Q : α → σ' → Prop}
    (h : p.Through effect R P (part.view s) fun a t => Q a (part.put s t)) :
    (p.embed f g).Through effect' R' P' s Q := by
  induction p generalizing s with
  | done a =>
      have hdone : Q a (part.put s (part.view s)) := h
      rw [part.put_view] at hdone
      exact hdone
  | call c k ih =>
      refine ⟨hstep c s h.1, fun input hin => ?_⟩
      have hrest := h.2 (input' input) (hinput input hin)
      show ((k (g c (effect' (f c) input s).1)).embed f g).Through effect' R' P'
        (effect' (f c) input s).2 Q
      rw [hanswer, hstate]
      apply ih
      rw [part.view_put]
      refine hrest.mono fun a t hq => ?_
      rw [part.put_put]
      exact hq

/-- Every call of a run satisfies what it is shown to satisfy on the way. -/
theorem Through.trace {p : Prog ι ρ α} {s : σ} {Q : α → σ → Prop} (h : p.Through effect R P s Q)
    {inputs : ℕ → ε} (hinputs : ∀ n, R (inputs n)) :
    ∀ m ∈ p.trace effect inputs s, P m.1 m.2 := by
  induction p generalizing s inputs with
  | done a => exact fun m hm => absurd hm List.not_mem_nil
  | call c k ih =>
      intro m hm
      rcases List.mem_cons.mp hm with rfl | hm
      · exact h.1
      · exact ih _ (h.2 (inputs 0) (hinputs 0)) (fun n => hinputs (n + 1)) m hm

/-- After a run the postcondition holds. -/
theorem Through.run {p : Prog ι ρ α} {s : σ} {Q : α → σ → Prop} (h : p.Through effect R P s Q)
    {inputs : ℕ → ε} (hinputs : ∀ n, R (inputs n)) :
    Q (p.run effect inputs s).value (p.run effect inputs s).state := by
  induction p generalizing s inputs with
  | done a => exact h
  | call c k ih => exact ih _ (h.2 (inputs 0) (hinputs 0)) fun n => hinputs (n + 1)

/-- What holds on the way and at the end holds of every state of a run. -/
theorem Through.visited {F : σ → Prop} {p : Prog ι ρ α} {s : σ}
    (h : p.Through effect R (fun s _ => F s) s fun _ s' => F s') {inputs : ℕ → ε}
    (hinputs : ∀ n, R (inputs n)) : ∀ s' ∈ p.visited effect inputs s, F s' := by
  intro s' hs'
  rcases List.mem_append.mp hs' with hs' | hs'
  · obtain ⟨m, hm, rfl⟩ := List.mem_map.mp hs'
    exact h.trace hinputs m hm
  · rw [List.mem_singleton.mp hs']
    exact h.run hinputs

/-- If a property of the calls is the same as a condition on them while an invariant holds, and
calls that have it keep the invariant, then the two are the same for a whole run, which keeps the
invariant too. -/
theorem Through.trace_all_iff {P' C : σ → ι → Prop} {I : σ → Prop} {p : Prog ι ρ α} {s : σ}
    {Q : α → σ → Prop} (h : p.Through effect R P s Q)
    (hsame : ∀ s c, P s c → I s → (P' s c ↔ C s c))
    (hkeep : ∀ c input s, R input → P s c → I s → P' s c → I (effect c input s).2)
    {inputs : ℕ → ε} (hinputs : ∀ n, R (inputs n)) (hs : I s) :
    ((∀ m ∈ p.trace effect inputs s, P' m.1 m.2) ↔ ∀ m ∈ p.trace effect inputs s, C m.1 m.2) ∧
      ((∀ m ∈ p.trace effect inputs s, P' m.1 m.2) → I (p.run effect inputs s).state) := by
  induction p generalizing s inputs with
  | done a =>
      have hnone : ∀ {C : σ → ι → Prop}, ∀ m ∈ (done a : Prog ι ρ α).trace effect inputs s,
          C m.1 m.2 := fun m hm => absurd hm List.not_mem_nil
      exact ⟨iff_of_true hnone hnone, fun _ => hs⟩
  | call c k ih =>
      have hrest := fun hcall => ih _ (h.2 (inputs 0) (hinputs 0)) (fun n => hinputs (n + 1))
        (hkeep c (inputs 0) s (hinputs 0) h.1 hs hcall)
      rw [Prog.trace, List.forall_mem_cons, List.forall_mem_cons, ← hsame s c h.1 hs]
      exact ⟨and_congr_right fun hcall => (hrest hcall).1, fun hall => (hrest hall.1).2 hall.2⟩

end Prog

/-! ## Items one after another -/

variable {χ σ β : Type}

/-- What is seen while the items act, with the item that acts. -/
def observe (act : χ → σ → List β × σ) : List χ → σ → List (χ × β)
  | [], _ => []
  | x :: rest, s => (act x s).1.map (x, ·) ++ observe act rest (act x s).2

/-- Every item meets the condition in the state in which it starts. -/
def EachMeets (act : χ → σ → List β × σ) (C : χ → σ → Prop) : List χ → σ → Prop
  | [], _ => True
  | x :: rest, s => C x s ∧ EachMeets act C rest (act x s).2

/-- What holds of all that is seen holds of what each item shows. -/
theorem each_meets_observed {act : χ → σ → List β × σ} {P : χ → β → Prop} {items : List χ} {s : σ} :
    EachMeets act (fun x s => ∀ b ∈ (act x s).1, P x b) items s ↔
      ∀ m ∈ observe act items s, P m.1 m.2 := by
  induction items generalizing s with
  | nil => exact iff_of_true trivial fun m hm => absurd hm List.not_mem_nil
  | cons x rest ih =>
      rw [observe, List.forall_mem_append, List.forall_mem_map]
      exact and_congr_right fun _ => ih

/-- Two conditions that are the same while an invariant holds, which the items that meet them keep,
are the same for the whole sequence. -/
theorem each_meets_congr {act : χ → σ → List β × σ} {I : σ → Prop} {C C' : χ → σ → Prop}
    {items : List χ} {s : σ}
    (hitem : ∀ x s, I s → (C x s ↔ C' x s) ∧ (C x s → I (act x s).2)) (hs : I s) :
    EachMeets act C items s ↔ EachMeets act C' items s := by
  induction items generalizing s with
  | nil => exact Iff.rfl
  | cons x rest ih =>
      obtain ⟨hiff, hkeep⟩ := hitem x s hs
      show C x s ∧ EachMeets act C rest (act x s).2 ↔ C' x s ∧ EachMeets act C' rest (act x s).2
      rw [← hiff]
      exact and_congr_right fun hmeets => ih (hkeep hmeets)

end Interaction
