import Mathlib.Data.List.Induction

/-!
# Finite executions of a labelled transition system

`Execution step start history finish` says that the labels of `history`, oldest first, lead
from `start` to `finish`. The history is part of the judgement, so a statement about a state
can also speak about everything that happened before it. Read `Execution.invariant` and
`Execution.simulate` first: the one turns a step lemma into a run lemma, the other carries an
execution over to an abstract system that may stutter.
-/

namespace Labelled

variable {σ ε σ' ε' : Type*}

/-- Finitely many transitions from `start`, with their labels oldest first. -/
inductive Execution (step : σ → ε → σ → Prop) (start : σ) : List ε → σ → Prop where
  | refl : Execution step start [] start
  | snoc {history : List ε} {middle finish : σ} {label : ε} :
      Execution step start history middle → step middle label finish →
      Execution step start (history ++ [label]) finish

namespace Execution

variable {step : σ → ε → σ → Prop} {start middle finish : σ} {history later : List ε}

/-- A single transition is an execution. -/
theorem single {label : ε} (h : step start label finish) :
    Execution step start [label] finish :=
  .snoc .refl h

/-- Executions compose, and their histories are concatenated. -/
theorem trans (h : Execution step start history middle)
    (hlater : Execution step middle later finish) :
    Execution step start (history ++ later) finish := by
  induction hlater with
  | refl => simpa using h
  | snoc _ hstep ih =>
      rw [← List.append_assoc]
      exact .snoc ih hstep

/-- Without a label nothing has happened. -/
theorem of_nil (h : Execution step start [] finish) : finish = start := by
  generalize hn : ([] : List ε) = nothing at h
  cases h with
  | refl => rfl
  | snoc => simp at hn

/-- The last label of a history names the last transition. -/
theorem of_snoc {label : ε} (h : Execution step start (history ++ [label]) finish) :
    ∃ middle, Execution step start history middle ∧ step middle label finish := by
  generalize hn : history ++ [label] = total at h
  cases h with
  | refl => simp at hn
  | @snoc before middle _ last hbefore hstep =>
      obtain ⟨rfl, hlast⟩ := List.append_inj' hn rfl
      cases hlast
      exact ⟨middle, hbefore, hstep⟩

/-- An execution can be cut at every point of its history. -/
theorem split (h : Execution step start (history ++ later) finish) :
    ∃ middle, Execution step start history middle ∧ Execution step middle later finish := by
  induction later using List.reverseRecOn generalizing finish with
  | nil =>
      rw [List.append_nil] at h
      exact ⟨finish, h, .refl⟩
  | append_singleton later label ih =>
      rw [← List.append_assoc] at h
      obtain ⟨before, hbefore, hstep⟩ := h.of_snoc
      obtain ⟨middle, hfirst, hrest⟩ := ih hbefore
      exact ⟨middle, hfirst, hrest.snoc hstep⟩

/-- The state before and after any label of the history. -/
theorem split_at {before after : List ε} {label : ε}
    (h : Execution step start (before ++ label :: after) finish) :
    ∃ s s', Execution step start before s ∧ step s label s' ∧
      Execution step s' after finish := by
  rw [List.append_cons] at h
  obtain ⟨s', hbefore, hafter⟩ := h.split
  obtain ⟨s, hfirst, hstep⟩ := hbefore.of_snoc
  exact ⟨s, s', hfirst, hstep, hafter⟩

/-- The first label of a history names the first transition. -/
theorem of_cons {label : ε} (h : Execution step start (label :: later) finish) :
    ∃ s, step start label s ∧ Execution step s later finish := by
  obtain ⟨first, s, hfirst, hstep, hlater⟩ := @split_at _ _ _ _ _ [] _ _ h
  exact ⟨s, hfirst.of_nil ▸ hstep, hlater⟩

/-- A property of the start that every step keeps holds at the finish. -/
theorem invariant {I : σ → Prop} (h : Execution step start history finish) (hstart : I start)
    (hstep : ∀ s label s', I s → step s label s' → I s') : I finish := by
  induction h with
  | refl => exact hstart
  | snoc _ hs ih => exact hstep _ _ _ ih hs

/-- A property of the start and the empty history that every step of an execution keeps holds at
the finish, of all that happened. -/
theorem invariant_history {I : List ε → σ → Prop} (h : Execution step start history finish)
    (hstart : I [] start)
    (hstep : ∀ before s label s', Execution step start before s → I before s →
      step s label s' → I (before ++ [label]) s') : I history finish := by
  induction h with
  | refl => exact hstart
  | snoc hbefore hs ih => exact hstep _ _ _ _ hbefore ih hs

/-- What holds of every label of the history may be assumed of every step. -/
theorem restrict {C : ε → Prop} (h : Execution step start history finish)
    (hlabels : ∀ label ∈ history, C label) :
    Execution (fun s label s' => C label ∧ step s label s') start history finish := by
  induction h with
  | refl => exact .refl
  | snoc _ hs ih =>
      exact .snoc (ih fun label hl => hlabels label (by simp [hl])) ⟨hlabels _ (by simp), hs⟩

/-- The last writer wins. Labels with `write` fix the value of `obs`, the others keep it; so its
value at the finish is that of the last writer, if there is one. -/
theorem last_write {ν : Type*} {I : σ → Prop} (h : Execution step start history finish)
    (obs : σ → ν) (write : ε → Bool) (value : ε → ν) (hstart : I start)
    (hkeep : ∀ s label s', I s → step s label s' → I s')
    (hwrite : ∀ s label s', I s → step s label s' → write label → obs s' = value label)
    (hskip : ∀ s label s', I s → step s label s' → ¬ write label → obs s' = obs s) :
    ((history.filter write).getLast? = none ∧ obs finish = obs start) ∨
    ∃ label, (history.filter write).getLast? = some label ∧ obs finish = value label := by
  induction h with
  | refl => exact .inl ⟨rfl, rfl⟩
  | @snoc before middle finish label hbefore hs ih =>
      have hi := hbefore.invariant hstart hkeep
      by_cases hw : write label
      · refine .inr ⟨label, ?_, hwrite _ _ _ hi hs hw⟩
        simp [List.filter_append, hw]
      · have hsame := hskip _ _ _ hi hs hw
        rw [hsame]
        simpa [List.filter_append, hw] using ih

/-- Steps may be replaced by steps they imply. An invariant of the original execution may be
used for it. -/
theorem mono {step' : σ → ε → σ → Prop} {I : σ → Prop}
    (h : Execution step start history finish) (hstart : I start)
    (hkeep : ∀ s label s', I s → step s label s' → I s')
    (himp : ∀ s label s', I s → step s label s' → step' s label s') :
    Execution step' start history finish := by
  induction h with
  | refl => exact .refl
  | snoc hbefore hs ih =>
      exact .snoc ih (himp _ _ _ (hbefore.invariant hstart hkeep) hs)

theorem imp {step' : σ → ε → σ → Prop} (h : Execution step start history finish)
    (himp : ∀ s label s', step s label s' → step' s label s') :
    Execution step' start history finish :=
  h.mono (I := fun _ => True) trivial (fun _ _ _ _ _ => trivial) fun s label s' _ => himp s label s'

/-- Stuttering simulation. Every concrete step is an abstract step under `view`, or, when its
label has no `view`, leaves the abstraction `abs` unchanged; then the viewed history is an
execution of the abstract system. The invariant `I` of the concrete system may be used. -/
theorem simulate {step' : σ' → ε' → σ' → Prop} {I : σ → Prop}
    (h : Execution step start history finish) (abs : σ → σ') (view : ε → Option ε')
    (hstart : I start)
    (hkeep : ∀ s label s', I s → step s label s' → I s')
    (hvisible : ∀ s label s' label', I s → step s label s' → view label = some label' →
      step' (abs s) label' (abs s'))
    (hsilent : ∀ s label s', I s → step s label s' → view label = none → abs s' = abs s) :
    Execution step' (abs start) (history.filterMap view) (abs finish) := by
  induction h with
  | refl => exact .refl
  | @snoc before middle finish label hbefore hs ih =>
      have hi := hbefore.invariant hstart hkeep
      cases hv : view label with
      | none =>
          rw [hsilent _ _ _ hi hs hv]
          simpa [List.filterMap_append, hv] using ih
      | some label' =>
          have hlast := ih.snoc (hvisible _ _ _ _ hi hs hv)
          simpa [List.filterMap_append, hv] using hlast

end Execution

end Labelled
