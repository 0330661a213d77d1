import MutualCloud.Library.Execution
import Mathlib.Data.Set.Insert
import Mathlib.Logic.Function.Basic

/-!
# Requests with a coalesced wake-up

Any number of producers ask one worker to serve items. A producer first enters its item and then
sets a signal, which has room for one wake-up and so is lost when one is waiting already. The
worker waits for the signal or for a timer, takes a list of items that has every item it owes, and
serves them one after another. `signalled` is the result: when the worker waits and no producer is
between its two steps, an item that is still owed has left the signal set.
-/

namespace WakeUp

open Labelled

variable {κ ι : Type*}

/-- What the worker is doing. -/
inductive Worker (ι : Type*) where
  | waiting
  | woken
  | serving (todo : Set ι)

open Classical in
/-- The worker with these items left to serve. -/
noncomputable def Worker.onto (todo : Set ι) : Worker ι :=
  if todo = ∅ then waiting else serving todo

/-- The items that were asked for and never served, the item of every producer that has not set
the signal yet, the signal, and the worker. -/
structure State (κ ι : Type*) where
  owed : Set ι
  asking : κ → Option ι
  signal : Bool
  worker : Worker ι

/-- What can happen. -/
inductive Event (κ ι : Type*) where
  | ask (j : κ) (x : ι)
  | notify (j : κ)
  | wake
  | take (todo : Set ι)
  | serve (x : ι)

/-- One step. A wake-up by the timer leaves the signal as it is, and an item that was served before
is not owed again. -/
inductive Step [DecidableEq κ] : State κ ι → Event κ ι → State κ ι → Prop where
  | ask {s : State κ ι} {j : κ} {x : ι} {owed : Set ι} :
      s.asking j = none → owed ⊆ insert x s.owed →
      Step s (.ask j x) { s with owed := owed, asking := Function.update s.asking j (some x) }
  | notify {s : State κ ι} {j : κ} : s.asking j ≠ none →
      Step s (.notify j) { s with asking := Function.update s.asking j none, signal := true }
  | wake {s : State κ ι} {signal : Bool} : s.worker = .waiting →
      Step s .wake { s with signal := signal, worker := .woken }
  | take {s : State κ ι} {todo : Set ι} : s.worker = .woken → s.owed ⊆ todo →
      Step s (.take todo) { s with worker := .onto todo }
  | serve {s : State κ ι} {x : ι} {todo todo' : Set ι} : s.worker = .serving todo →
      todo \ {x} ⊆ todo' →
      Step s (.serve x) { s with owed := s.owed \ {x}, worker := .onto todo' }

/-- The worker will come to the item without another wake-up. -/
def Worker.Covers (x : ι) : Worker ι → Prop
  | waiting => False
  | woken => True
  | serving todo => x ∈ todo

/-- Every item that is owed has a producer that will set the signal, or a signal, or the worker is
on its way to it. -/
def Safe (s : State κ ι) : Prop :=
  ∀ x ∈ s.owed, (∃ j, s.asking j = some x) ∨ s.signal = true ∨ s.worker.Covers x

/-- A worker comes to the items that it has left to serve. -/
theorem Worker.covers_onto {x : ι} {todo : Set ι} (h : x ∈ todo) : (Worker.onto todo).Covers x := by
  unfold onto
  rw [if_neg (Set.nonempty_of_mem h).ne_empty]
  exact h

variable [DecidableEq κ] {s s' : State κ ι} {history : List (Event κ ι)}

/-- Every step is safe. -/
theorem Safe.step {e : Event κ ι} (h : Safe s) (hstep : Step s e s') : Safe s' := by
  cases hstep with
  | @ask j x owed hidle howed =>
      intro y hy
      rcases Set.mem_insert_iff.mp (howed hy) with rfl | hold
      · exact .inl ⟨j, Function.update_self j _ _⟩
      · refine (h y hold).imp_left ?_
        rintro ⟨i, hi⟩
        have hne : i ≠ j := by
          rintro rfl
          rw [hidle] at hi
          cases hi
        exact ⟨i, (Function.update_of_ne hne _ _).trans hi⟩
  | notify => exact fun _ _ => .inr (.inl rfl)
  | wake => exact fun _ _ => .inr (.inr trivial)
  | take hwoken hall => exact fun x hx => .inr (.inr (Worker.covers_onto (hall hx)))
  | @serve x todo todo' hserving hrest =>
      intro y hy
      obtain ⟨howed, hne⟩ := hy
      refine (h y howed).imp_right (Or.imp_right fun hcovers => ?_)
      rw [hserving] at hcovers
      exact Worker.covers_onto (hrest ⟨hcovers, hne⟩)

/-- Every run from a state in which nothing is owed is safe. -/
theorem safe_run (hexec : Execution Step s history s') (hstart : s.owed = ∅) : Safe s' := by
  refine hexec.invariant (I := Safe) ?_ fun _ _ _ h hstep => h.step hstep
  intro x hx
  rw [hstart] at hx
  exact hx.elim

/-- When the worker waits and no producer is between its two steps, an item that is owed has left
the signal set. -/
theorem signalled (hexec : Execution Step s history s') (hstart : s.owed = ∅)
    (hwaiting : s'.worker = .waiting) (hidle : ∀ j, s'.asking j = none) {x : ι}
    (hx : x ∈ s'.owed) : s'.signal = true := by
  rcases safe_run hexec hstart x hx with ⟨j, hj⟩ | hsignal | hcovers
  · rw [hidle j] at hj
    cases hj
  · exact hsignal
  · rw [hwaiting] at hcovers
    exact hcovers.elim

end WakeUp
