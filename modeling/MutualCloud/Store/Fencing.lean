import MutualCloud.Store.Refinement

/-!
# Tokens, retries and recorded outcomes

Consequences of `Run.ownership` for whole histories of the store, in the words of `TryClaim` and
`Finish`: `Granted` is a claim that returned a token, `Finishes` a finish that updated its row.
`token_retry_accounting` counts claims and requeues, `one_outcome` is the fencing property for
callers that present the tokens they were issued, and `finish_fenced` says what the guard of
`Finish` does ensure for a caller that presents anything at all.
-/

namespace MutualCloud.Store

open Go KeyedTable Interaction Labelled

/-- The event is a `TryClaim` on job `id` that returned the token to the agent. -/
def Event.Granted (e : Event) (id agentID : String) (token : UInt64) : Prop :=
  ∃ ttl input t expiry, e = ⟨.tryClaim id agentID ttl, input, .ok (some (t, expiry))⟩ ∧
    token = uint64 t

/-- The event is a `Finish` on job `id` by the agent under the token that updated the row. -/
def Event.Finishes (e : Event) (id agentID : String) (token : UInt64) : Prop :=
  ∃ outcome input, ∃ n : ℕ, e = ⟨.finish id agentID token outcome, input, .ok n⟩ ∧ n ≠ 0

/-- The event is a `Heartbeat` or a `Finish` on job `id` that presents the token. -/
def Event.Presents (e : Event) (id : String) (token : UInt64) : Prop :=
  (∃ agentID ttl, e.call = .heartbeat id agentID token ttl) ∨
  (∃ agentID outcome, e.call = .finish id agentID token outcome)

/-- The token that a statement on job `id` issued. -/
def Stmt.issuedToken (id : String) : (s : Stmt) → s.Rows → Option UInt64
  | tryClaim k _ _, returned =>
      if k = id then returned.map fun columns => uint64 columns.1 else none
  | createJob _, _ | getJob _, _ | attachManifest _ _, _ | claimRefusal _, _
  | heartbeat _ _ _ _, _ | finish _ _ _ _, _ | listExpiredLeases, _ | setStatusQueued _, _ => none

/-- The token that an event on job `id` issued. -/
def Event.issuedToken (id : String) (e : Event) : Option UInt64 :=
  match e.response with
  | .ok rows => e.call.issuedToken id rows
  | .error _ => none

/-- The tokens returned by the successful `TryClaim` calls on job `id`, oldest first. -/
def issuedTokens (id : String) (history : List Event) : List UInt64 :=
  history.filterMap (Event.issuedToken id)

/-- Whether a statement put job `id` back to the queue. -/
def Stmt.requeued (id : String) : (s : Stmt) → s.Rows → Bool
  | setStatusQueued k, n => k = id ∧ n ≠ (0 : ℕ)
  | createJob _, _ | getJob _, _ | attachManifest _ _, _ | tryClaim _ _ _, _ | claimRefusal _, _
  | heartbeat _ _ _ _, _ | finish _ _ _ _, _ | listExpiredLeases, _ => false

/-- Whether an event put job `id` back to the queue. -/
def Event.requeued (id : String) (e : Event) : Bool :=
  match e.response with
  | .ok rows => e.call.requeued id rows
  | .error _ => false

/-- The number of successful `SetStatusQueued` calls on job `id`. -/
def requeues (id : String) (history : List Event) : ℕ :=
  history.countP (Event.requeued id)

/-! ## From the protocol to the store -/

theorem Event.Granted.ownership {e : Event} {id agentID : String} {token : UInt64}
    (h : e.Granted id agentID token) : e.ownership id = some (.claim agentID token.toNat) := by
  obtain ⟨ttl, input, t, expiry, rfl, rfl⟩ := h
  simp [Event.ownership, Stmt.ownership]

theorem Event.Granted.mem_ownership {history : List Event} {e : Event} {id agentID : String}
    {token : UInt64} (h : e.Granted id agentID token) (he : e ∈ history) :
    .claim agentID token.toNat ∈ history.filterMap (Event.ownership id) :=
  List.mem_filterMap.mpr ⟨e, he, h.ownership⟩

/-- A claim of the protocol is a `TryClaim` that returned its token. -/
theorem granted_of_ownership {e : Event} {id agentID : String} {n : ℕ}
    (h : e.ownership id = some (.claim agentID n)) :
    ∃ token : UInt64, e.Granted id agentID token ∧ token.toNat = n := by
  obtain ⟨call, input, response⟩ := e
  cases response with
  | error => cases h
  | ok rows =>
      cases call with
      | tryClaim k claimer ttl =>
          simp only [Event.ownership, Stmt.ownership, Option.ite_none_right_eq_some,
            Option.map_eq_some_iff, FencedLease.Event.claim.injEq] at h
          obtain ⟨rfl, ⟨t, expiry⟩, rfl, rfl, rfl⟩ := h
          exact ⟨uint64 t, ⟨ttl, input, t, expiry, rfl, rfl⟩, rfl⟩
      | createJob | heartbeat | finish | setStatusQueued =>
          simp [Event.ownership, Stmt.ownership] at h
      | getJob | attachManifest | claimRefusal | listExpiredLeases => cases h

theorem Event.Finishes.ownership {e : Event} {id agentID : String} {token : UInt64}
    (h : e.Finishes id agentID token) : e.ownership id = some (.close agentID token.toNat) := by
  obtain ⟨outcome, input, n, rfl, hn⟩ := h
  simp [Event.ownership, Stmt.ownership, hn]

/-- The tokens issued by the store are the tokens issued by the protocol. -/
theorem issued_ownership (id : String) (history : List Event) :
    (history.filterMap (Event.ownership id)).filterMap FencedLease.Event.issued =
      (issuedTokens id history).map UInt64.toNat := by
  rw [issuedTokens, List.filterMap_filterMap, List.map_filterMap]
  congr 1
  funext e
  obtain ⟨call, input, response⟩ := e
  cases response with
  | error => rfl
  | ok rows =>
      cases call with
      | tryClaim k agentID ttl =>
          by_cases hk : k = id
          · cases rows <;> simp [Event.ownership, Stmt.ownership, Event.issuedToken,
              Stmt.issuedToken, hk, FencedLease.Event.issued]
          · simp [Event.ownership, Stmt.ownership, Event.issuedToken, Stmt.issuedToken, hk]
      | createJob | heartbeat | finish | setStatusQueued =>
          simp only [Event.ownership, Stmt.ownership, Event.issuedToken, Stmt.issuedToken]
          split <;> rfl
      | getJob | attachManifest | claimRefusal | listExpiredLeases => rfl

/-- The requeues of the store are the expiries of the protocol. -/
theorem requeues_ownership (id : String) (history : List Event) :
    (history.filterMap (Event.ownership id)).countP FencedLease.Event.isExpire =
      requeues id history := by
  rw [requeues, List.countP_filterMap]
  congr 1
  funext e
  obtain ⟨call, input, response⟩ := e
  cases response with
  | error => rfl
  | ok rows =>
      cases call with
      | setStatusQueued k =>
          by_cases hk : k = id ∧ rows ≠ (0 : ℕ)
          · simp [Event.ownership, Stmt.ownership, Event.requeued, Stmt.requeued, hk,
              FencedLease.Event.isExpire]
          · simp [Event.ownership, Stmt.ownership, Event.requeued, Stmt.requeued, hk]
      | tryClaim k =>
          by_cases hk : k = id
          · cases rows <;> simp [Event.ownership, Stmt.ownership, Event.requeued, Stmt.requeued,
              hk, FencedLease.Event.isExpire]
          · simp [Event.ownership, Stmt.ownership, Event.requeued, Stmt.requeued, hk]
      | createJob | heartbeat | finish =>
          simp only [Event.ownership, Stmt.ownership, Event.requeued, Stmt.requeued]
          split <;> rfl
      | getJob | attachManifest | claimRefusal | listExpiredLeases => rfl

/-- A heartbeat or a finish that takes effect renews or closes the lease. -/
theorem Event.Presents.ownership {e : Event} {id : String} {token : UInt64}
    (h : e.Presents id token) (hw : e.Writes id) :
    ∃ agentID, e.ownership id = some (.renew agentID token.toNat) ∨
      e.ownership id = some (.close agentID token.toNat) := by
  obtain ⟨call, input, response⟩ := e
  obtain ⟨-, rows, hresponse, hwrote⟩ := hw
  rcases h with ⟨agentID, ttl, hcall⟩ | ⟨agentID, outcome, hcall⟩
  all_goals
    obtain rfl := hcall
    cases response with
    | error => cases hresponse
    | ok n =>
        have hn : n ≠ (0 : ℕ) := Except.ok.inj hresponse ▸ hwrote
        exact ⟨agentID, by simp [Event.ownership, Stmt.ownership, hn]⟩

/-! ## Counting claims and requeues -/

/-- The tokens issued for a job are `1, 2, …` up to its current token. -/
theorem Run.issued_tokens {history : List Event} {db : DemandJobs} (h : Run history db)
    {id : String} {row : Row} (hrow : db.lookup id = some row) :
    (issuedTokens id history).map UInt64.toNat = List.range' 1 row.leaseToken.toNat := by
  have hissued := FencedLease.issued_eq (h.ownership id)
  rw [issued_ownership, hrow] at hissued
  exact hissued

/-- The `k`-th claim of a job returned the token `k`. -/
theorem Run.issued_token_eq {history : List Event} {db : DemandJobs} (h : Run history db)
    {id : String} {row : Row} (hrow : db.lookup id = some row) {k : ℕ} {token : UInt64}
    (hk : (issuedTokens id history)[k]? = some token) : token.toNat = k + 1 := by
  have hget : ((issuedTokens id history).map UInt64.toNat)[k]? = some token.toNat := by
    rw [List.getElem?_map, hk, Option.map_some]
  rw [h.issued_tokens hrow, List.getElem?_eq_some_iff] at hget
  obtain ⟨hlt, hget⟩ := hget
  rw [List.getElem_range'] at hget
  omega

/-- The token of a job counts its claims. -/
theorem Run.issued_length {history : List Event} {db : DemandJobs} (h : Run history db)
    {id : String} {row : Row} (hrow : db.lookup id = some row) :
    (issuedTokens id history).length = row.leaseToken.toNat := by
  have hlength := congrArg List.length (h.issued_tokens hrow)
  rwa [List.length_map, List.length_range'] at hlength

/-- The retry counter of a job counts its requeues. -/
theorem Run.requeues_eq {history : List Event} {db : DemandJobs} (h : Run history db)
    {id : String} {row : Row} (hrow : db.lookup id = some row) :
    requeues id history = row.retryCount.toNat := by
  have hretries := FencedLease.retries_eq (h.ownership id)
  rw [requeues_ownership, hrow] at hretries
  exact hretries

/-- Every issued token is at most the current one. -/
theorem Run.issued_le {history : List Event} {db : DemandJobs} (h : Run history db)
    {id : String} {row : Row} (hrow : db.lookup id = some row) {token : UInt64}
    (ht : token ∈ issuedTokens id history) : token.toNat ≤ row.leaseToken.toNat := by
  have hmem := List.mem_map_of_mem (f := UInt64.toNat) ht
  rw [h.issued_tokens hrow, List.mem_range'_1] at hmem
  omega

/-- Rows are never deleted, and their tokens never decrease. -/
theorem token_mono {history : List Event} {db db' : DemandJobs} (h : Execution Step db history db')
    (hs : Sound db) {id : String} {row : Row} (hrow : db.lookup id = some row) :
    ∃ row', db'.lookup id = some row' ∧ row.leaseToken ≤ row'.leaseToken := by
  have hkept : (∃ row', db'.lookup id = some row') ∧ Sound db' := by
    refine h.invariant (I := fun db => (∃ row', db.lookup id = some row') ∧ Sound db)
      ⟨⟨row, hrow⟩, hs⟩ ?_
    rintro s e s' ⟨⟨r, hr⟩, hsound⟩ hstep
    refine ⟨?_, hsound.step hstep⟩
    -- no statement deletes a row
    have hrs := row_step hstep id
    rw [hr] at hrs
    generalize hnew : s'.lookup id = new at hrs
    cases hrs <;> exact ⟨_, rfl⟩
  obtain ⟨⟨row', hrow'⟩, hs'⟩ := hkept
  have hmono := FencedLease.token_mono (execution_ownership h hs id)
  rw [hrow, hrow'] at hmono
  have hold := (hs id row hrow).token_nonneg
  have hnew := (hs' id row' hrow').token_nonneg
  have hle : row.leaseToken.toNat ≤ row'.leaseToken.toNat := hmono
  exact ⟨row', hrow', by omega⟩

/-- Who owns a row tells its status, when jobs are created queued. -/
theorem Row.WellFormed.phase {row : Row} (h : row.WellFormed) :
    (row.status = .queued → row.phase = .free) ∧
    (row.status.Active → ∃ agentID, row.phase = .held agentID) := by
  refine ⟨?_, ?_⟩
  · intro hq
    have hagent := h.agent_none_of_not_active (by rw [hq]; decide)
    simp [Row.phase, hagent, hq]
  · intro hactive
    obtain ⟨agentID, hagent⟩ := Option.ne_none_iff_exists'.mp (h.leased hactive)
    exact ⟨agentID, by simp [Row.phase, hagent]⟩

/-- A token below an issued one is refused ever after. -/
theorem Run.stale_refused {history later : List Event} {db db' : DemandJobs}
    (h : Run history db) (hlater : Execution Step db later db') {id : String} {row : Row}
    (hrow : db.lookup id = some row) {token stale : UInt64}
    (ht : token ∈ issuedTokens id history) (hstale : stale < token) {e : Event} (he : e ∈ later)
    (hp : e.Presents id stale) : ¬ e.Writes id := by
  intro hw
  obtain ⟨agentID, hview⟩ := hp.ownership hw
  have hexec := execution_ownership hlater h.sound id
  have hpresented : .renew agentID stale.toNat ∈ later.filterMap (Event.ownership id) ∨
      .close agentID stale.toNat ∈ later.filterMap (Event.ownership id) :=
    hview.imp (fun hv => List.mem_filterMap.mpr ⟨e, he, hv⟩)
      (fun hv => List.mem_filterMap.mpr ⟨e, he, hv⟩)
  have hle := FencedLease.token_le_presented hexec hpresented
  rw [hrow] at hle
  have hissued := h.issued_le hrow ht
  have hlt := UInt64.lt_iff_toNat_lt.mp hstale
  exact absurd (Nat.lt_of_lt_of_le hlt hissued) (Nat.not_lt.mpr hle)

/-- Token and retry accounting. `lease_token` counts the successful claims and the `k`-th of
them returned `k`; `retry_count` counts the requeues; the status tells how far the two are
apart. So `lease_token` never decreases, and once a token is issued no heartbeat or finish
under a smaller one takes effect. -/
theorem token_retry_accounting {history : List Event} {db : DemandJobs} (hrun : Run history db)
    (hcreate : CreatesQueued history) {id : String} {row : Row} (hrow : db.lookup id = some row) :
    row.leaseToken = (issuedTokens id history).length ∧
    (∀ k token, (issuedTokens id history)[k]? = some token → token.toNat = k + 1) ∧
    row.retryCount = requeues id history ∧
    (row.status = .queued → row.leaseToken = row.retryCount) ∧
    (row.status.Active → row.leaseToken = row.retryCount + 1) ∧
    (row.status.Terminal →
      row.leaseToken = row.retryCount ∨ row.leaseToken = row.retryCount + 1) ∧
    (∀ later db', Execution Step db later db' →
      (∃ row', db'.lookup id = some row' ∧ row.leaseToken ≤ row'.leaseToken) ∧
      ∀ token ∈ issuedTokens id history, ∀ stale < token,
        ∀ e ∈ later, e.Presents id stale → ¬ e.Writes id) := by
  have hw := hrun.well_formed hcreate hrow
  have htoken := hw.token_nonneg
  have hretries := hw.retries_nonneg
  have hlength := hrun.issued_length hrow
  have hcount := hrun.requeues_eq hrow
  have hbalance := FencedLease.balance (hrun.ownership id)
  rw [hrow] at hbalance
  obtain ⟨hfree, hheld, heither⟩ := hbalance
  refine ⟨by omega, ?_, by omega, ?_, ?_, ?_, ?_⟩
  · exact fun k token hk => hrun.issued_token_eq hrow hk
  · intro hq
    have heq : row.leaseToken.toNat = row.retryCount.toNat := hfree (hw.phase.1 hq)
    omega
  · intro hactive
    obtain ⟨agentID, hphase⟩ := hw.phase.2 hactive
    have heq : row.leaseToken.toNat = row.retryCount.toNat + 1 := hheld agentID hphase
    omega
  · intro _
    have heq : row.leaseToken.toNat = row.retryCount.toNat ∨
        row.leaseToken.toNat = row.retryCount.toNat + 1 := heither
    omega
  · intro later db' hlater
    refine ⟨token_mono hlater hrun.sound hrow, ?_⟩
    intro token ht stale hstale e he hp
    exact hrun.stale_refused hlater hrow ht hstale he hp

/-- The sample job has been claimed once and not requeued. -/
theorem token_retry_accounting_claimed :
    (play Sample.claimed).2.lookup "job" = some Sample.claimedRow ∧
      Sample.claimedRow.leaseToken = (issuedTokens "job" (play Sample.claimed).1).length :=
  ⟨Sample.claimed_row,
    (token_retry_accounting (play_run Sample.claimed) Sample.claimed_creates Sample.claimed_row).1⟩

/-! ## Recorded outcomes -/

/-- Every `Finish` on job `id` presents a token that an earlier `TryClaim` returned to its agent,
as the agent of the repository does. -/
def PresentsIssued (id : String) (history : List Event) : Prop :=
  ∀ before e after agentID token outcome, history = before ++ e :: after →
    e.call = .finish id agentID token outcome → ∃ c ∈ before, c.Granted id agentID token

theorem Event.Finishes.call_eq {e : Event} {id agentID : String} {token : UInt64}
    (h : e.Finishes id agentID token) : ∃ outcome, e.call = .finish id agentID token outcome := by
  obtain ⟨outcome, input, n, rfl, -⟩ := h
  exact ⟨outcome, rfl⟩

/-- An effective finish under an issued token is under the current token of the job, for good. -/
theorem Run.finish_final {before after : List Event} {db : DemandJobs} {e : Event}
    {id agentID : String} {token : UInt64} (h : Run (before ++ e :: after) db)
    (he : e.Finishes id agentID token)
    (hissued : ∃ c ∈ before, c.Granted id agentID token) :
    token.toNat = (Store.ownership (db.lookup id)).token ∧
      ∀ c ∈ after, ∀ claimer issued, ¬ c.Granted id claimer issued := by
  obtain ⟨c, hc, hgranted⟩ := hissued
  have hexec := h.ownership id
  rw [List.filterMap_append, List.filterMap_cons_some he.ownership] at hexec
  obtain ⟨heq, hnone⟩ := FencedLease.close_final hexec (hgranted.mem_ownership hc)
  refine ⟨heq, ?_⟩
  intro c' hc' claimer issued hlater
  exact hnone claimer issued.toNat (hlater.mem_ownership hc')

/-- One recorded outcome, from the newest claim. When every `Finish` presents a token issued to
its agent, at most one agent and token ever finish the job; the token is the highest ever
issued; no claim follows; and so a stale executor never writes its result. -/
theorem one_outcome {history : List Event} {db : DemandJobs} {id : String} (hrun : Run history db)
    (hhonest : PresentsIssued id history) :
    (∀ e₁ ∈ history, ∀ e₂ ∈ history, ∀ a₁ u₁ a₂ u₂, e₁.Finishes id a₁ u₁ → e₂.Finishes id a₂ u₂ →
      a₁ = a₂ ∧ u₁ = u₂) ∧
    (∀ before e after agentID token, history = before ++ e :: after →
      e.Finishes id agentID token →
      (∀ c ∈ history, ∀ claimer issued, c.Granted id claimer issued → issued ≤ token) ∧
      (∀ c ∈ after, ∀ claimer issued, ¬ c.Granted id claimer issued)) ∧
    (∀ c ∈ history, ∀ claimer issued, c.Granted id claimer issued →
      ∀ e ∈ history, ∀ agentID, ∀ stale < issued, ¬ e.Finishes id agentID stale) := by
  have hexec := hrun.ownership id
  -- every effective finish presents the current token, which its agent was issued
  have hcurrent : ∀ e ∈ history, ∀ agentID token, e.Finishes id agentID token →
      token.toNat = (Store.ownership (db.lookup id)).token ∧
        .claim agentID token.toNat ∈ history.filterMap (Event.ownership id) := by
    intro e he agentID token hfin
    obtain ⟨before, after, rfl⟩ := List.append_of_mem he
    obtain ⟨outcome, hcall⟩ := hfin.call_eq
    obtain ⟨c, hc, hgranted⟩ := hhonest before e after agentID token outcome rfl hcall
    exact ⟨(hrun.finish_final hfin ⟨c, hc, hgranted⟩).1, hgranted.mem_ownership (by simp [hc])⟩
  have hhighest : ∀ e ∈ history, ∀ agentID token, e.Finishes id agentID token →
      ∀ c ∈ history, ∀ claimer issued, c.Granted id claimer issued → issued ≤ token := by
    intro e he agentID token hfin c hc claimer issued hgranted
    have hle := FencedLease.claim_le hexec (hgranted.mem_ownership hc)
    rw [← (hcurrent e he agentID token hfin).1] at hle
    exact UInt64.le_iff_toNat_le.mpr hle
  refine ⟨?_, ?_, ?_⟩
  · intro e₁ he₁ e₂ he₂ a₁ u₁ a₂ u₂ h₁ h₂
    obtain ⟨htoken₁, hclaim₁⟩ := hcurrent e₁ he₁ a₁ u₁ h₁
    obtain ⟨htoken₂, hclaim₂⟩ := hcurrent e₂ he₂ a₂ u₂ h₂
    obtain rfl : u₁ = u₂ := UInt64.toNat_inj.mp (htoken₁.trans htoken₂.symm)
    exact ⟨FencedLease.claim_unique hexec hclaim₁ hclaim₂, rfl⟩
  · rintro before e after agentID token rfl hfin
    refine ⟨hhighest e (by simp) agentID token hfin, ?_⟩
    obtain ⟨outcome, hcall⟩ := hfin.call_eq
    exact (hrun.finish_final hfin (hhonest before e after agentID token outcome rfl hcall)).2
  · intro c hc claimer issued hgranted e he agentID stale hstale hfin
    have hle := hhighest e he agentID stale hfin c hc claimer issued hgranted
    exact absurd hstale (UInt64.not_lt.mpr hle)

namespace Sample

/-- The report of a successful execution. -/
def outcome : Outcome := ⟨true, "cid", some ["out"], none⟩

/-- The agent `a` claims the sample job and finishes it. -/
def finished : List (Stmt × Input) :=
  claimed ++ [(.finish "job" "a" 1 outcome, { now := 3 })]

theorem finished_presents : PresentsIssued "job" (play finished).1 := by
  intro before e after agentID token outcome hsplit hcall
  match before, hsplit with
  | [], hsplit =>
      obtain ⟨rfl, -⟩ := List.cons.inj hsplit
      cases hcall
  | [_], hsplit =>
      obtain ⟨rfl, -⟩ := List.cons.inj (List.cons.inj hsplit).2
      cases hcall
  | [_, c], hsplit =>
      obtain ⟨rfl, hrest⟩ := List.cons.inj (List.cons.inj hsplit).2
      have he : ⟨.finish "job" "a" 1 Sample.outcome, { now := 3 }, .ok (1 : ℕ)⟩ = e :=
        (List.cons.inj hrest).1
      subst he
      cases hcall
      exact ⟨_, .tail _ (.head _), 15 * second, { now := 2 }, 1, 15000000002, rfl, rfl⟩
  | _ :: _ :: _ :: _, hsplit =>
      have hlen := congrArg List.length hsplit
      simp [play, finished, claimed, replay] at hlen

end Sample

/-- Nobody but the agent `a` ever finishes the sample job. -/
theorem one_outcome_finished :
    PresentsIssued "job" (play Sample.finished).1 ∧
      ∀ e ∈ (play Sample.finished).1, ∀ b u, e.Finishes "job" b u → b = "a" ∧ u = 1 := by
  refine ⟨Sample.finished_presents, ?_⟩
  intro e he b u hfin
  refine (one_outcome (play_run Sample.finished) Sample.finished_presents).1 e he
    ⟨.finish "job" "a" 1 Sample.outcome, { now := 3 }, .ok (1 : ℕ)⟩ ?_ b u "a" 1 hfin ?_
  · exact List.mem_of_getLast? rfl
  · exact ⟨Sample.outcome, { now := 3 }, 1, rfl, by decide⟩

/-! ## What the guard of `Finish` ensures by itself -/

/-- A statement that finishes the job and changes its row found the row finishable. -/
theorem finishable_of_change {db db' : DemandJobs} {e : Event} {id agentID : String}
    {token : UInt64} {outcome : Outcome} (hcall : e.call = .finish id agentID token outcome)
    (hstep : Step db e db') (hchange : db'.lookup id ≠ db.lookup id) :
    ∃ row, db.lookup id = some row ∧ row.Finishable agentID token := by
  have hrs := row_step hstep id
  generalize db.lookup id = old at hrs hchange
  generalize db'.lookup id = new at hrs hchange
  cases hrs with
  | idle => exact absurd rfl hchange
  | finish _ _ _ _ row hguard =>
      cases hcall
      exact ⟨row, rfl, hguard⟩
  | create | attach | claim | renew | requeue => cases hcall

/-- The agent that holds a lease was granted its token. -/
theorem Run.granted_of_leased {history : List Event} {db : DemandJobs} (h : Run history db)
    {id agentID : String} {row : Row} (hrow : db.lookup id = some row)
    (hagent : row.leaseAgent = some agentID) :
    ∃ c ∈ history, c.Granted id agentID (uint64 row.leaseToken) := by
  have hs := h.sound id row hrow
  have hexec := h.ownership id
  rw [hrow] at hexec
  have hheld : (Store.ownership (some row)).phase = .held agentID := by
    simp [Store.ownership, Row.phase, hagent]
  obtain ⟨c, hc, hview⟩ := List.mem_filterMap.mp (FencedLease.claim_of_held hexec hheld)
  obtain ⟨token, hgranted, htoken⟩ := granted_of_ownership hview
  obtain rfl : token = uint64 row.leaseToken := by
    apply UInt64.toNat_inj.mp
    rw [htoken, toNat_uint64 hs.token_nonneg hs.token_lt]
    rfl
  exact ⟨c, hc, hgranted⟩

/-- What a `Finish` that changes its row must present, whoever sends it: a token not below any
token ever issued for the job and, while the row is leased, the name of the agent to which the
latest token was returned. -/
theorem finish_fenced {history : List Event} {db db' : DemandJobs} (hrun : Run history db)
    {e : Event} {id b : String} {u : UInt64} {outcome : Outcome}
    (hcall : e.call = .finish id b u outcome) (hstep : Step db e db')
    (hchange : db'.lookup id ≠ db.lookup id) :
    u.toNat < 2 ^ 63 ∧
    (∀ t ∈ issuedTokens id history, t ≤ u) ∧
    (∀ row a, db.lookup id = some row → row.leaseAgent = some a →
      b = a ∧ ∃ latest, (∃ c ∈ history, c.Granted id b latest) ∧
        ∀ t ∈ issuedTokens id history, t ≤ latest) := by
  obtain ⟨row, hrow, hguard⟩ := finishable_of_change hcall hstep hchange
  have hs := hrun.sound id row hrow
  obtain ⟨hsmall, hle⟩ := toNat_of_le_int64 hs.token_nonneg hguard.2
  refine ⟨hsmall, ?_, ?_⟩
  · intro t ht
    have hissued := hrun.issued_le hrow ht
    exact UInt64.le_iff_toNat_le.mpr (by omega)
  · intro row' a hrow' hagent
    obtain rfl : row = row' := Option.some.inj (hrow.symm.trans hrow')
    obtain rfl : b = a := by
      rcases hguard.1 with hb | hnone
      · exact Option.some.inj (hb.symm.trans hagent)
      · rw [hnone] at hagent
        cases hagent
    refine ⟨rfl, uint64 row.leaseToken, hrun.granted_of_leased hrow hagent, ?_⟩
    intro t ht
    rw [UInt64.le_iff_toNat_le, toNat_uint64 hs.token_nonneg hs.token_lt]
    exact hrun.issued_le hrow ht

/-- The finish of the agent `a` on the job it claimed presents a token not below any issued. -/
theorem finish_fenced_claimed :
    ∃ db', Step (play Sample.claimed).2
        ⟨.finish "job" "a" 1 Sample.outcome, { now := 3 }, .ok (1 : ℕ)⟩ db' ∧
      db'.lookup "job" ≠ (play Sample.claimed).2.lookup "job" ∧
      ∀ t ∈ issuedTokens "job" (play Sample.claimed).1, t ≤ 1 := by
  have hstep : Step (play Sample.claimed).2
      ⟨.finish "job" "a" 1 Sample.outcome, { now := 3 }, .ok (1 : ℕ)⟩
      (play Sample.finished).2 := rfl
  have hchange : (play Sample.finished).2.lookup "job" ≠ (play Sample.claimed).2.lookup "job" := by
    decide
  exact ⟨_, hstep, hchange, (finish_fenced (play_run Sample.claimed) rfl hstep hchange).2.1⟩

namespace Sample

/-- The lease of the agent `a` runs out and the sample job is put back to the queue. -/
def requeued : List (Stmt × Input) :=
  claimed ++ [(.setStatusQueued "job", { now := 15000000003 })]

end Sample

/-- After the requeue an agent that never claimed the job finishes it with the token of `a`. -/
theorem finish_by_another_agent :
    Run (play Sample.requeued).1 (play Sample.requeued).2 ∧
    ∃ db', Step (play Sample.requeued).2
        ⟨.finish "job" "b" 1 Sample.outcome, { now := 15000000004 }, .ok (1 : ℕ)⟩ db' ∧
      db'.lookup "job" ≠ (play Sample.requeued).2.lookup "job" ∧
      ∀ c ∈ (play Sample.requeued).1, ∀ token, ¬ c.Granted "job" "b" token := by
  refine ⟨play_run _, _, rfl, by decide, ?_⟩
  intro c hc token hgranted
  simp only [play, Sample.requeued, Sample.claimed, List.cons_append, List.nil_append, replay,
    List.mem_cons, List.not_mem_nil, or_false] at hc
  obtain ⟨ttl, input, t, expiry, rfl, -⟩ := hgranted
  rcases hc with hc | hc | hc
  all_goals
    have hcall := congrArg Interaction.Event.call hc
    simp at hcall

end MutualCloud.Store
