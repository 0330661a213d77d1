import MutualCloud.Library.Interaction

/-!
# What the value and the calls of a program rest on

`p.Rests W Q` says that every value `a` with which `p` can end satisfies `Q`, or one of the calls
that `p` made was answered as `W a` wants it: the value rests on that answer. There is a rule for
each way to build a program. `Pool.rests` is the rule for interleavings: when a thread has ended
with such a value, the call is one of its own in the history.

`p.Follows W Q` says the same of every call that `p` makes, and `Pool.follows` that the answer which
a call of a thread rests on is one that the thread received before it.
-/

namespace Interaction

open Labelled

variable {ι : Type} {ρ : ι → Type} {ε σ α β τ : Type}

namespace Prog

/-- Every value satisfies `Q`, or rests on a call that was answered as `W` wants it. -/
def Rests (W : α → (c : ι) → ρ c → Prop) : Prog ι ρ α → (α → Prop) → Prop
  | .done a, Q => Q a
  | .call c k, Q => ∀ r, (k r).Rests W fun a => Q a ∨ W a c r

variable {W : α → (c : ι) → ρ c → Prop} {Q Q' : α → Prop} {p : Prog ι ρ α}

/-- What values need not rest on a call may grow. -/
theorem Rests.mono (h : p.Rests W Q) (himp : ∀ a, Q a → Q' a) : p.Rests W Q' := by
  induction p generalizing Q Q' with
  | done a => exact himp a h
  | call c k ih => exact fun r => ih r (h r) fun a => Or.imp_left (himp a)

/-- A sequence whose first part has values that rest on `V`: the second part goes on from such a
value, knowing the call it rests on. -/
theorem Rests.bind {V : β → (c : ι) → ρ c → Prop} {P : β → Prop} {p : Prog ι ρ β}
    {f : β → Prog ι ρ α} (hp : p.Rests V P) (hrest : ∀ b, P b → (f b).Rests W Q)
    (hcall : ∀ b c r, V b c r → (f b).Rests W fun a => Q a ∨ W a c r) :
    (p >>= f).Rests W Q := by
  induction p generalizing P Q with
  | done b => exact hrest b hp
  | call c k ih =>
      rw [call_bind]
      intro r
      refine ih r (hp r) (fun b hb => ?_) fun b c' r' hv => ?_
      · rcases hb with hb | hv
        · exact (hrest b hb).mono fun _ => Or.inl
        · exact hcall b c r hv
      · exact (hcall b c' r' hv).mono fun _ => Or.imp_left Or.inl

/-- What holds of all values of the rest of a sequence. -/
theorem rests_bind {f : β → Prog ι ρ α} (h : ∀ b, (f b).Rests W Q) (p : Prog ι ρ β) :
    (p >>= f).Rests W Q := by
  induction p with
  | done b => exact h b
  | call c k ih =>
      rw [call_bind]
      exact fun r => (ih r).mono fun _ => Or.inl

/-- The value of a sequence that ends by returning a function of the value of its first part. -/
theorem Rests.map {f : β → α} {p : Prog ι ρ β}
    (h : p.Rests (fun b => W (f b)) fun b => Q (f b)) : (p >>= fun b => .done (f b)).Rests W Q :=
  h.bind (fun _ hb => hb) fun _ _ _ hv => .inr hv

/-- The value of a program over a part of the calls. -/
theorem Rests.embed {ι' : Type} {ρ' : ι' → Type} {f : ι → ι'} {g : (c : ι) → ρ' (f c) → ρ c}
    {W' : α → (c : ι') → ρ' c → Prop} (h : p.Rests W Q)
    (himp : ∀ a c r, W a c (g c r) → W' a (f c) r) : (p.embed f g).Rests W' Q := by
  induction p generalizing Q with
  | done a => exact h
  | call c k ih =>
      exact fun r => (ih _ (h (g c r))).mono fun a => Or.imp_right (himp a c r)

/-- The value of a program that has made its calls. -/
theorem Ends.rests {events : List (Event ι ρ ε)} {a : α} (h : p.Ends events a)
    (hp : p.Rests W Q) : Q a ∨ ∃ e ∈ events, W a e.call e.response := by
  induction h generalizing Q with
  | done a => exact .inl hp
  | call input r _ ih =>
      rcases ih (hp r) with (hq | hw) | ⟨e, he, hw⟩
      · exact .inl hq
      · exact .inr ⟨_, List.mem_cons_self, hw⟩
      · exact .inr ⟨e, List.mem_cons_of_mem _ he, hw⟩

/-- Every call satisfies `Q`, or rests on an earlier call that was answered as `W` wants it. -/
def Follows (W : ι → (c : ι) → ρ c → Prop) : Prog ι ρ α → (ι → Prop) → Prop
  | .done _, _ => True
  | .call c k, Q => Q c ∧ ∀ r, (k r).Follows W fun c' => Q c' ∨ W c' c r

section Follows

variable {V : ι → (c : ι) → ρ c → Prop} {P P' : ι → Prop}

/-- What calls need not rest on another may grow. -/
theorem Follows.mono (h : p.Follows V P) (himp : ∀ c, P c → P' c) : p.Follows V P' := by
  induction p generalizing P P' with
  | done a => trivial
  | call c k ih =>
      exact ⟨himp c h.1, fun r => ih r (h.2 r) fun c' => Or.imp_left (himp c')⟩

/-- What holds of every call. -/
theorem Always.follows (h : p.Always (fun _ _ => True) P) : p.Follows V P := by
  induction p with
  | done a => trivial
  | call c k ih => exact ⟨h.1, fun r => (ih r (h.2 r trivial)).mono fun _ => Or.inl⟩

end Follows

end Prog

namespace Pool

variable [DecidableEq τ] {effect : Effect ι ρ ε σ} {p p' : Pool τ ι ρ σ α}
  {history : List (τ × Event ι ρ ε)}

/-- The events of a thread are those that the history has under its name. -/
theorem mem_own {i : τ} {e : Event ι ρ ε} : e ∈ own i history ↔ (i, e) ∈ history := by
  unfold own
  constructor
  · intro he
    obtain ⟨⟨j, e'⟩, hl, rfl⟩ := List.mem_map.mp he
    obtain ⟨hmem, hj⟩ := List.mem_filter.mp hl
    obtain rfl : j = i := of_decide_eq_true hj
    exact hmem
  · intro he
    exact List.mem_map.mpr ⟨(i, e), List.mem_filter.mpr ⟨he, decide_eq_true rfl⟩, rfl⟩

/-- The value with which a thread has ended rests on a call of its own. -/
theorem rests {W : α → (c : ι) → ρ c → Prop} {Q : α → Prop}
    (h : Execution (Step effect) p history p') {i : τ} {a : α} (hend : p'.thread i = .done a)
    (hp : (p.thread i).Rests W Q) :
    Q a ∨ ∃ e, (i, e) ∈ history ∧ W a e.call e.response := by
  rcases (ends h hend).rests hp with hq | ⟨e, he, hw⟩
  · exact .inl hq
  · exact .inr ⟨e, mem_own.mp he, hw⟩

/-- A call of a thread rests on an answer that the thread received before it. -/
theorem follows {W : ι → (c : ι) → ρ c → Prop} {Q : ι → Prop}
    {before after : List (τ × Event ι ρ ε)} {i : τ} {e : Event ι ρ ε}
    (h : Execution (Step effect) p (before ++ (i, e) :: after) p')
    (hp : (p.thread i).Follows W Q) :
    Q e.call ∨ ∃ e', (i, e') ∈ before ∧ W e.call e'.call e'.response := by
  obtain ⟨q, q', hbefore, ⟨k, hcall, -, -⟩, -⟩ := h.split_at
  -- what the thread still does, with the answers that it has received
  have hrest : (q.thread i).Follows W fun c =>
      Q c ∨ ∃ e', (i, e') ∈ before ∧ W c e'.call e'.response := by
    refine hbefore.invariant_history (I := fun before q => (q.thread i).Follows W fun c =>
      Q c ∨ ∃ e', (i, e') ∈ before ∧ W c e'.call e'.response) (hp.mono fun _ => Or.inl) ?_
    rintro before s ⟨j, e'⟩ s' - hs ⟨k', hcall', -, hthread⟩
    rw [hthread]
    by_cases hj : i = j
    · subst hj
      rw [hcall'] at hs
      rw [Function.update_self]
      refine (hs.2 e'.response).mono fun c hc => ?_
      rcases hc with (hq | ⟨e'', he'', hw⟩) | hw
      · exact .inl hq
      · exact .inr ⟨e'', List.mem_append_left _ he'', hw⟩
      · exact .inr ⟨e', by simp, hw⟩
    · rw [Function.update_of_ne hj]
      exact hs.mono fun c => Or.imp_right fun ⟨e'', he'', hw⟩ =>
        ⟨e'', List.mem_append_left _ he'', hw⟩
  rw [hcall] at hrest
  exact hrest.1

end Pool

end Interaction
