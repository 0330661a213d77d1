import MutualCloud.Library.Execution

/-!
# The protocol of a fenced lease

A resource is free, held by one agent, or closed. Every claim issues the next token; a lease is
renewed by its holder under the current token, expires, or is closed by anybody who presents a
token not below the current one, except that nobody but the holder closes a held lease. Agents
are of an arbitrary type.

The results are about whole executions: `issued_eq` lists the issued tokens, `balance` relates
the two counters, and `close_final` is the fencing property: a close under a token that was
issued before it is under the last token ever issued, and nothing is claimed after it.
-/

namespace FencedLease

open Labelled

variable {α : Type*}

/-- Who has the resource. -/
inductive Phase (α : Type*) where
  | absent
  | free
  | held (agent : α)
  | closed

/-- The phase, the last token issued, and the number of expiries. -/
structure State (α : Type*) where
  phase : Phase α
  token : ℕ
  retries : ℕ

/-- Before the resource is created. -/
def State.initial : State α := ⟨.absent, 0, 0⟩

/-- The visible steps of the protocol. -/
inductive Event (α : Type*) where
  | create (ready : Bool)
  | claim (agent : α) (token : ℕ)
  | renew (agent : α) (token : ℕ)
  | expire
  | close (agent : α) (token : ℕ)

/-- One step. A resource may be created out of service, which is as good as closed. -/
inductive Step : State α → Event α → State α → Prop where
  | create (ready : Bool) :
      Step .initial (.create ready) ⟨if ready then .free else .closed, 0, 0⟩
  | claim (agent : α) (token retries : ℕ) :
      Step ⟨.free, token, retries⟩ (.claim agent (token + 1)) ⟨.held agent, token + 1, retries⟩
  | renew (agent : α) (token retries : ℕ) :
      Step ⟨.held agent, token, retries⟩ (.renew agent token) ⟨.held agent, token, retries⟩
  | expire (agent : α) (token retries : ℕ) :
      Step ⟨.held agent, token, retries⟩ .expire ⟨.free, token, retries + 1⟩
  | close (phase : Phase α) (agent : α) (token retries presented : ℕ) :
      (phase = .held agent ∨ phase = .free ∨ phase = .closed) → token ≤ presented →
      Step ⟨phase, token, retries⟩ (.close agent presented) ⟨.closed, token, retries⟩

/-- The token that an event issues. -/
def Event.issued : Event α → Option ℕ
  | .claim _ token => some token
  | _ => none

/-- Whether an event is an expiry. -/
def Event.isExpire : Event α → Bool
  | .expire => true
  | _ => false

variable {s s' : State α} {history : List (Event α)}

/-- The tokens issued are exactly `1, 2, …` up to the current one, in this order. -/
theorem issued_eq (h : Execution Step .initial history s) :
    history.filterMap Event.issued = List.range' 1 s.token := by
  induction h with
  | refl => rfl
  | snoc _ hstep ih =>
      rw [List.filterMap_append, ih]
      cases hstep with
      | claim agent token retries =>
          rw [List.range'_1_concat]
          simp [Event.issued, Nat.add_comm]
      | create | renew | expire | close => simp [Event.issued, State.initial]

/-- The second counter counts the expiries. -/
theorem retries_eq (h : Execution Step .initial history s) :
    history.countP Event.isExpire = s.retries := by
  induction h with
  | refl => rfl
  | snoc _ hstep ih =>
      rw [List.countP_append, ih]
      cases hstep <;> simp [Event.isExpire, State.initial]

/-- The two counters agree, except that a claim runs ahead until its lease expires. -/
theorem balance (h : Execution Step .initial history s) :
    (s.phase = .free → s.token = s.retries) ∧
    (∀ agent, s.phase = .held agent → s.token = s.retries + 1) ∧
    (s.token = s.retries ∨ s.token = s.retries + 1) := by
  induction h with
  | refl => simp [State.initial]
  | snoc _ hstep ih =>
      obtain ⟨hfree, hheld, heither⟩ := ih
      cases hstep with
      | create ready => cases ready <;> simp
      | claim agent token retries =>
          have := hfree rfl
          simp_all
      | renew agent token retries => exact ⟨hfree, hheld, heither⟩
      | expire agent token retries =>
          have := hheld agent rfl
          simp_all
      | close => exact ⟨by simp, by simp, heither⟩

/-- Tokens never decrease. -/
theorem token_mono (h : Execution Step s history s') : s.token ≤ s'.token := by
  induction h with
  | refl => exact Nat.le_refl _
  | snoc _ hstep ih =>
      cases hstep with
      | claim => exact Nat.le_succ_of_le ih
      | create | renew | expire | close => exact ih

/-- A renewal or a close presents at least the token that was current at any time before. -/
theorem token_le_presented (h : Execution Step s history s') {agent : α} {presented : ℕ}
    (hp : .renew agent presented ∈ history ∨ .close agent presented ∈ history) :
    s.token ≤ presented := by
  rcases hp with hp | hp
  all_goals
    obtain ⟨before, after, rfl⟩ := List.append_of_mem hp
    obtain ⟨s₁, s₂, hbefore, hstep, -⟩ := h.split_at
    have hmono := token_mono hbefore
  · cases hstep with
    | renew => exact hmono
  · cases hstep with
    | close _ _ _ _ _ _ hpresented => exact Nat.le_trans hmono hpresented

/-- The agent that holds the resource was issued the current token. -/
theorem claim_of_held (h : Execution Step .initial history s) {agent : α}
    (hheld : s.phase = .held agent) : .claim agent s.token ∈ history := by
  induction h generalizing agent with
  | refl => cases hheld
  | snoc _ hstep ih =>
      rw [List.mem_append]
      cases hstep with
      | create ready => cases ready <;> cases hheld
      | claim =>
          cases hheld
          exact .inr (List.mem_singleton.mpr rfl)
      | renew => exact .inl (ih hheld)
      | expire => cases hheld
      | close => cases hheld

/-- Every issued token is at most the current one. -/
theorem claim_le (h : Execution Step .initial history s) {agent : α} {token : ℕ}
    (hclaim : .claim agent token ∈ history) : token ≤ s.token := by
  have hmem : token ∈ history.filterMap Event.issued :=
    List.mem_filterMap.mpr ⟨_, hclaim, rfl⟩
  rw [issued_eq h, List.mem_range'_1] at hmem
  omega

/-- A token is issued to one agent only. -/
theorem claim_unique (h : Execution Step .initial history s) {agent other : α} {token : ℕ}
    (hclaim : .claim agent token ∈ history) (hother : .claim other token ∈ history) :
    agent = other := by
  induction h with
  | refl => simp at hclaim
  | snoc hbefore hstep ih =>
      rw [List.mem_append, List.mem_singleton] at hclaim hother
      rcases hclaim with hclaim | rfl
      · rcases hother with hother | rfl
        · exact ih hclaim hother
        · -- the token of the last step is above all earlier ones
          cases hstep
          exact absurd (claim_le hbefore hclaim) (Nat.not_succ_le_self _)
      · rcases hother with hother | heq
        · cases hstep
          exact absurd (claim_le hbefore hother) (Nat.not_succ_le_self _)
        · exact (Event.claim.inj heq).1.symm

/-- A closed resource stays closed, and nothing is claimed. -/
theorem closed_final (h : Execution Step s history s') (hclosed : s.phase = .closed) :
    s'.phase = .closed ∧ s'.token = s.token ∧ ∀ agent token, .claim agent token ∉ history := by
  induction h with
  | refl => exact ⟨hclosed, rfl, by simp⟩
  | snoc _ hstep ih =>
      obtain ⟨hphase, htoken, hnone⟩ := ih
      cases hstep with
      | create | claim | renew | expire => cases hphase
      | close phase agent token retries presented =>
          refine ⟨rfl, htoken, ?_⟩
          intro claimer issued hclaim
          rw [List.mem_append, List.mem_singleton] at hclaim
          rcases hclaim with hclaim | hclaim
          · exact hnone claimer issued hclaim
          · cases hclaim

/-- Fencing. A close under a token that its agent was issued before is under the last token ever
issued, and no claim follows it. -/
theorem close_final {before after : List (Event α)} {agent : α} {presented : ℕ}
    (h : Execution Step .initial (before ++ .close agent presented :: after) s)
    (hissued : .claim agent presented ∈ before) :
    presented = s.token ∧ ∀ claimer token, .claim claimer token ∉ after := by
  obtain ⟨s₁, s₂, hbefore, hstep, hafter⟩ := h.split_at
  have hle := claim_le hbefore hissued
  cases hstep with
  | close phase agent token retries presented _ hpresented =>
      obtain ⟨_, htoken, hnone⟩ := closed_final hafter rfl
      refine ⟨?_, hnone⟩
      -- an issued token is at most the current one, and a close presents no less
      rw [htoken]
      exact Nat.le_antisymm hle hpresented

end FencedLease
