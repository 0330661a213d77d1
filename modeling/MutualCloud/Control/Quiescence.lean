import MutualCloud.Control.Mirror

/-!
# The mirror of a job once all handlers have ended

Any number of executions of the four handlers act on one job. Each takes its statement first and
writes the mirror afterwards, and nothing orders the writes of two executions, so the mirror shows
the job as the last writer left it and the row as the last statement did. `mirror_agrees_iff` says
exactly when the two agree once all executions have ended.

The argument has three last-writer facts, for the row and for the two records, and the two rules of
`Library.Interaction` for what an execution can write and what it cannot avoid writing.
-/

namespace MutualCloud.Control

open Go KeyedTable Interaction Labelled Store

variable {τ : Type} {id : String} {x : τ → Exec} {w w' : World} {l : Label τ}

/-- An execution of effective steps. -/
abbrev Interleaving (id : String) (x : τ → Exec) :=
  Execution fun w (l : Label τ) w' => Effective id x l ∧ Answers effect w l.2 w'

variable {history : List (Label τ)}

theorem Interleaving.fit (h : Interleaving id x w history w') (hfit : Fit id w) : Fit id w' :=
  h.invariant hfit fun _ _ _ hf hstep => (fit_step hstep.1 hstep.2 hf).1

/-- The row shows what the last move made of the job. -/
theorem Interleaving.row (h : Interleaving id x w history w') (hfit : Fit id w) :
    ((history.filter (moves x)).getLast? = none ∧ rowTarget id w' = rowTarget id w) ∨
    ∃ m, (history.filter (moves x)).getLast? = some m ∧ rowTarget id w' = (x m.1).target := by
  refine Execution.last_write (I := Fit id) h (rowTarget id) (moves x)
    (fun l => (x l.1).target) hfit ?_ ?_ ?_
  · exact fun _ _ _ hf hstep => (fit_step hstep.1 hstep.2 hf).1
  · exact fun _ _ _ hf hstep hm => (fit_step hstep.1 hstep.2 hf).2.1 hm
  · exact fun _ _ _ hf hstep hm => (fit_step hstep.1 hstep.2 hf).2.2.1 hm

/-- The state record is that of its last writer. -/
theorem Interleaving.state (h : Interleaving id x w history w') :
    ((history.filter fun l => l.2.call.writes (.state id)).getLast? = none ∧
      stateRecord id w' = stateRecord id w) ∨
    ∃ s, (history.filter fun l => l.2.call.writes (.state id)).getLast? = some s ∧
      stateRecord id w' = s.2.call.writtenState :=
  Execution.last_write (I := fun _ => True) h (stateRecord id)
    (fun l => l.2.call.writes (.state id)) (fun l => l.2.call.writtenState) trivial
    (fun _ _ _ _ _ => trivial)
    (fun _ _ _ _ hstep hw => (state_step hstep.1 hstep.2).1 hw)
    (fun _ _ _ _ hstep hw => (state_step hstep.1 hstep.2).2 hw)

/-- The owner in the lease record is that of its last writer. -/
theorem Interleaving.lease (h : Interleaving id x w history w') :
    ((history.filter fun l => l.2.call.writes (.lease id)).getLast? = none ∧
      (leaseRecord id w').owner = (leaseRecord id w).owner) ∨
    ∃ s, (history.filter fun l => l.2.call.writes (.lease id)).getLast? = some s ∧
      (leaseRecord id w').owner = (x s.1).owner :=
  Execution.last_write (I := fun _ => True) h (fun w => (leaseRecord id w).owner)
    (fun l => l.2.call.writes (.lease id)) (fun l => (x l.1).owner) trivial
    (fun _ _ _ _ _ => trivial)
    (fun _ _ _ _ hstep hw => (lease_step hstep.1 hstep.2).1 hw)
    (fun _ _ _ _ hstep hw => (lease_step hstep.1 hstep.2).2 hw)

/-- A mirror that agrees names no empty agent. -/
theorem MirrorAgrees.named {row : Row} (h : MirrorAgrees id w row) : row.leaseAgent ≠ some "" := by
  intro hempty
  exact h.owned.mpr (by simp [hempty]) (h.owner "" hempty)

/-- Executions of handlers that start on the world `w`. -/
def handlers (id : String) (x : τ → Exec) (w : World) : Pool τ Call Call.Response World Unit :=
  ⟨w, fun i => (x i).code id⟩

section Quiescence

variable [DecidableEq τ] {p : Pool τ Call Call.Response World Unit}

/-- The steps of an interleaving of handlers whose statements take effect are effective. -/
theorem interleaving_of_pool
    (hrun : Execution (Pool.Step effect) (handlers id x w) history p)
    (heffective : ∀ l ∈ history, TookEffect l.2.call l.2.response ∧ l.2.input.dhtFault = false) :
    Interleaving id x w history p.shared := by
  have hstart : ∀ i, ((handlers id x w).thread i).Always TookEffect ((x i).Makes id) := by
    intro i
    obtain ⟨k, hcode, hmirrors⟩ := (x i).code_mirrors id
    show ((x i).code id).Always TookEffect ((x i).Makes id)
    rw [hcode]
    exact ⟨rfl, fun r hr => (hmirrors r hr).makes⟩
  have hmakes := (Pool.always hrun (fun l hl => (heffective l hl).1) hstart).1
  exact (Pool.shared_execution hrun).restrict
    fun l hl => ⟨hmakes l hl, (heffective l hl).1, (heffective l hl).2⟩

/-- When all executions have ended, each has taken its statement and written the records that it
has to write. -/
theorem written_of_quiescent
    (hrun : Execution (Pool.Step effect) (handlers id x w) history p)
    (heffective : ∀ l ∈ history, TookEffect l.2.call l.2.response ∧ l.2.input.dhtFault = false)
    (hended : p.Quiescent) (i : τ) :
    (∃ l ∈ history, l.1 = i ∧ l.2.call.isSql) ∧
    ((x i).target ≠ none → ∃ l ∈ history, l.1 = i ∧ l.2.call.writes (.state id)) ∧
    (∃ l ∈ history, l.1 = i ∧ l.2.call.writes (.lease id)) := by
  obtain ⟨a, hend⟩ := hended i
  obtain ⟨k, hcode, hmirrors⟩ := (x i).code_mirrors id
  have hthread : (handlers id x w).thread i = .call (.sql ((x i).stmt id)) k := hcode
  have htook := fun l hl => (heffective l hl).1
  refine ⟨?_, ?_, ?_⟩
  · refine Pool.inevitably (Q := fun c => c.isSql) hrun htook ?_ hend
    rw [hthread]
    exact .inl rfl
  · intro htarget
    refine Pool.inevitably (Q := fun c => c.writes (.state id)) hrun htook ?_ hend
    rw [hthread]
    exact .inr fun r hr => (hmirrors r hr).state htarget
  · refine Pool.inevitably (Q := fun c => c.writes (.lease id)) hrun htook ?_ hend
    rw [hthread]
    exact .inr fun r hr => (hmirrors r hr).lease

end Quiescence

/-- Nobody but the last writer decides: a writer makes the list of writers non-empty. -/
theorem getLast_ne_none (write : Label τ → Bool) (h : ∃ l ∈ history, write l) :
    (history.filter write).getLast? ≠ none := by
  obtain ⟨l, hl, hw⟩ := h
  rw [ne_eq, List.getLast?_eq_none_iff]
  exact List.ne_nil_of_mem (List.mem_filter.mpr ⟨hl, hw⟩)

theorem mem_of_getLast {write : Label τ → Bool} (h : (history.filter write).getLast? = some l) :
    l ∈ history ∧ write l :=
  List.mem_filter.mp (List.mem_of_getLast? h)

theorem Interleaving.effective (h : Interleaving id x w history w') (hl : l ∈ history) :
    Effective id x l := by
  obtain ⟨before, after, rfl⟩ := List.append_of_mem hl
  obtain ⟨_, _, _, hstep, _⟩ := h.split_at
  exact hstep.1

/-- Without a move, an execution that renews the lease found the job assigned to its agent, and so
it was from the start. -/
theorem Interleaving.assigned_of_sql (h : Interleaving id x w history w') (hfit : Fit id w)
    (hstill : ∀ m ∈ history, ¬ moves x m) (hl : l ∈ history) (hsql : l.2.call.isSql)
    (hnone : (x l.1).target = none) : rowTarget id w = some (.assigned (x l.1).owner) := by
  obtain ⟨before, after, rfl⟩ := List.append_of_mem hl
  obtain ⟨s, s', hbefore, hstep, -⟩ := h.split_at
  have hs := (fit_step hstep.1 hstep.2 (Interleaving.fit hbefore hfit)).2.2.2 hsql hnone
  rcases Interleaving.row hbefore hfit with ⟨-, hsame⟩ | ⟨m, hm, -⟩
  · rw [← hsame]
    exact hs
  · obtain ⟨hmem, hmoves⟩ := mem_of_getLast hm
    exact absurd hmoves (hstill m (List.mem_append_left _ hmem))

/-- Agreement at the end, in terms of what the row says of the job. -/
theorem mirror_agrees_of_fit (hfit : Fit id w) :
    ∃ row, w.db.lookup id = some row ∧ rowTarget id w = some (targetOf row) ∧
      (MirrorAgrees id w row ↔ (targetOf row).Describes (stateRecord id w) ∧
        (leaseRecord id w).owner = (targetOf row).owner) ∧ (targetOf row).Proper := by
  obtain ⟨row, hrow, hformed, hnamed⟩ := hfit
  exact ⟨row, hrow, by simp [rowTarget, hrow], mirror_agrees_target hformed hnamed,
    target_proper hformed⟩

/-- Without a move the mirror keeps showing what it showed: no execution writes the state record,
and every owner that one writes is the holder of the lease. -/
theorem Interleaving.agrees_of_still (h : Interleaving id x w history w') (hfit : Fit id w)
    (hstill : ∀ m ∈ history, ¬ moves x m)
    (hsql : ∀ i, ∃ l ∈ history, l.1 = i ∧ l.2.call.isSql) {t : Target}
    (htarget : rowTarget id w = some t) (hstate : t.Describes (stateRecord id w))
    (howner : (leaseRecord id w).owner = t.owner) :
    t.Describes (stateRecord id w') ∧ (leaseRecord id w').owner = t.owner := by
  have htargets : ∀ i, (x i).target = none := by
    intro i
    obtain ⟨l, hl, rfl, hl_sql⟩ := hsql i
    simpa [moves, hl_sql] using hstill l hl
  refine ⟨?_, ?_⟩
  · rcases Interleaving.state h with ⟨-, hst⟩ | ⟨s, hs, -⟩
    · rw [hst]
      exact hstate
    · -- a writer of the state record has a target
      obtain ⟨hmem, hw⟩ := mem_of_getLast hs
      obtain ⟨t, ht, -⟩ := describes_of_writes (Interleaving.effective h hmem) hw
      rw [htargets] at ht
      cases ht
  · rcases Interleaving.lease h with ⟨-, hlease⟩ | ⟨s, -, hlease⟩
    · rw [hlease]
      exact howner
    · obtain ⟨l, hl, hi, hl_sql⟩ := hsql s.1
      have hassigned := Interleaving.assigned_of_sql h hfit hstill hl hl_sql (htargets _)
      rw [htarget] at hassigned
      rw [hlease, Option.some.inj hassigned, hi]
      rfl

/-- Once somebody has written each of the two records, they show a target if and only if their
last writers made it of the job. -/
theorem Interleaving.agrees_iff_last (h : Interleaving id x w history w') {i : τ} {t : Target}
    (htarget : (x i).target = some t) (hproper : t.Proper)
    (hstate : ∃ l ∈ history, l.2.call.writes (.state id))
    (hlease : ∃ l ∈ history, l.2.call.writes (.lease id)) :
    (t.Describes (stateRecord id w') ∧ (leaseRecord id w').owner = t.owner) ↔
      (∃ s, (history.filter fun l => l.2.call.writes (.state id)).getLast? = some s ∧
        (x s.1).target = (x i).target) ∧
      (∃ l, (history.filter fun l => l.2.call.writes (.lease id)).getLast? = some l ∧
        (x l.1).owner = (x i).owner) := by
  rcases Interleaving.state h with ⟨hnone, -⟩ | ⟨s, hs, hst⟩
  · exact absurd hnone (getLast_ne_none (fun l => l.2.call.writes (.state id)) hstate)
  rcases Interleaving.lease h with ⟨hnone, -⟩ | ⟨l, hl, howner⟩
  · exact absurd hnone (getLast_ne_none (fun l => l.2.call.writes (.lease id)) hlease)
  obtain ⟨hmem, hw⟩ := mem_of_getLast hs
  obtain ⟨t', ht', hdescribes⟩ := describes_of_writes (Interleaving.effective h hmem) hw
  have hstateIff : t.Describes (stateRecord id w') ↔ (x s.1).target = (x i).target := by
    rw [hst, ht', htarget, Option.some.injEq]
    refine ⟨fun ht => ?_, fun ht => ht ▸ hdescribes⟩
    exact Target.describes_unique hdescribes ht (Exec.target_proper ht') hproper
  have hleaseIff : (leaseRecord id w').owner = t.owner ↔ (x l.1).owner = (x i).owner := by
    rw [howner, Exec.owner_of_target htarget]
  rw [hstateIff, hleaseIff]
  simp [hs, hl]

/-- The mirror at quiescence. Any number of handlers run on one job from a world in which the
mirror agrees with the row, in any interleaving, each with a statement that takes effect and on a
DHT that does not fail. When all have ended, the mirror agrees with the row if and only if the last
execution to write the state record and the last to write the lease record made of the job what the
last execution to move the row made of it; in particular it agrees if no execution moved the row. -/
theorem mirror_agrees_iff [DecidableEq τ] {p : Pool τ Call Call.Response World Unit} {row : Row}
    (hrow : w.db.lookup id = some row) (hformed : row.WellFormed) (hagrees : MirrorAgrees id w row)
    (hrun : Execution (Pool.Step effect) (handlers id x w) history p)
    (heffective : ∀ l ∈ history, TookEffect l.2.call l.2.response ∧ l.2.input.dhtFault = false)
    (hended : p.Quiescent) :
    ∃ row', p.shared.db.lookup id = some row' ∧
      (MirrorAgrees id p.shared row' ↔
        ∀ m, (history.filter (moves x)).getLast? = some m →
          (∃ s, (history.filter fun l => l.2.call.writes (.state id)).getLast? = some s ∧
            (x s.1).target = (x m.1).target) ∧
          (∃ l, (history.filter fun l => l.2.call.writes (.lease id)).getLast? = some l ∧
            (x l.1).owner = (x m.1).owner)) := by
  have hfit : Fit id w := ⟨row, hrow, hformed, hagrees.named⟩
  have hinter := interleaving_of_pool hrun heffective
  have hwritten := written_of_quiescent hrun heffective hended
  obtain ⟨row', hrow', htarget', hiff', hproper'⟩ :=
    mirror_agrees_of_fit (Interleaving.fit hinter hfit)
  refine ⟨row', hrow', ?_⟩
  rw [hiff']
  rcases Interleaving.row hinter hfit with ⟨hnone, hsame⟩ | ⟨m, hm, hmoved⟩
  · -- nobody moved the row, so it says what it said at the start
    refine iff_of_true ?_ (by simp [hnone])
    have hstill : ∀ m ∈ history, ¬ moves x m := by
      intro m hmem hmoves
      exact getLast_ne_none (moves x) ⟨m, hmem, hmoves⟩ hnone
    have hstart : rowTarget id w = some (targetOf row) := by simp [rowTarget, hrow]
    rw [show targetOf row' = targetOf row from
      Option.some.inj (htarget'.symm.trans (hsame.trans hstart))]
    obtain ⟨hdescribes, howner⟩ := (mirror_agrees_target hformed hagrees.named).mp hagrees
    exact Interleaving.agrees_of_still hinter hfit hstill (fun i => (hwritten i).1) hstart
      hdescribes howner
  · -- the mover `m` has written both records, so both have a last writer
    have htarget : (x m.1).target = some (targetOf row') := hmoved.symm.trans htarget'
    obtain ⟨-, hstate, hlease⟩ := hwritten m.1
    rw [Interleaving.agrees_iff_last hinter htarget hproper'
      ((hstate (by simp [htarget])).imp fun l h => ⟨h.1, h.2.2⟩)
      (hlease.imp fun l h => ⟨h.1, h.2.2⟩)]
    simp [hm]

namespace Sample

/-- The row of the sample job when it is created. -/
def freshRow : Row := Row.fresh Store.Sample.job

/-- The sample job has been created, and the mirror shows it queued. -/
def created : World where
  db := (play [(.createJob Store.Sample.job, { now := 1 })]).2
  dht
    | .state "job" => some ⟨"job", .queued, 1, 1, "", none, none⟩
    | _ => none
  dirty := []
  trigger := false

theorem created_row : created.db.lookup "job" = some freshRow := by decide

theorem created_formed : freshRow.WellFormed := by
  refine ⟨Row.sound_fresh _, ?_, ?_⟩
  · intro text h
    cases h
  · intro h
    exact absurd h (by decide)

theorem created_agrees : MirrorAgrees "job" created freshRow :=
  ⟨by decide, by decide, by decide, by decide, fun _ h => nomatch h⟩

/-- The agent `a` claims the job. -/
def claimOnly (_ : Unit) : Exec := .claim "a" (15 * second) (by decide)

/-- The five steps of the claim. -/
def claimPlan : List (Unit × Input) :=
  [((), { now := 2 }), ((), { now := 3 }), ((), { now := 4 }), ((), { now := 5 }),
    ((), { now := 6 })]

/-- The claim has run alone. -/
def claimRun := Pool.schedule effect claimPlan (handlers "job" claimOnly created)

/-- The agent `a` claims the job, and it is requeued after the lease expired. -/
def claimAndRequeue : Bool → Exec
  | true => .claim "a" (15 * second) (by decide)
  | false => .requeue 15000000003

/-- The claim writes its mirror after the requeue has run from beginning to end. -/
def latePlan : List (Bool × Input) :=
  (true, { now := 2 }) :: List.replicate 5 (false, { now := 15000000003 }) ++
    List.replicate 4 (true, { now := 15000000004 })

/-- The late claim has run. -/
def lateRun := Pool.schedule effect latePlan (handlers "job" claimAndRequeue created)

end Sample

/-- A claim that runs alone leaves a mirror that agrees. -/
theorem mirror_agrees_claim :
    ∃ row, Sample.claimRun.2.shared.db.lookup "job" = some row ∧
      MirrorAgrees "job" Sample.claimRun.2.shared row := by
  obtain ⟨row, hrow, hiff⟩ := mirror_agrees_iff (x := Sample.claimOnly) Sample.created_row
    Sample.created_formed Sample.created_agrees
    (Pool.schedule_execution effect Sample.claimPlan _) (by decide) (fun _ => ⟨(), rfl⟩)
  exact ⟨row, hrow, hiff.mpr fun m _ => ⟨⟨_, rfl, rfl⟩, ⟨_, rfl, rfl⟩⟩⟩

/-- The late mirror of a claim shows the job assigned to `a`, although it was requeued since. -/
theorem mirror_stale_claim :
    MirrorAgrees "job" Sample.created Sample.freshRow ∧
    Execution (Pool.Step effect) (handlers "job" Sample.claimAndRequeue Sample.created)
      Sample.lateRun.1 Sample.lateRun.2 ∧
    (∀ l ∈ Sample.lateRun.1, TookEffect l.2.call l.2.response ∧ l.2.input.dhtFault = false) ∧
    Sample.lateRun.2.Quiescent ∧
    ∃ row, Sample.lateRun.2.shared.db.lookup "job" = some row ∧
      ¬ MirrorAgrees "job" Sample.lateRun.2.shared row := by
  refine ⟨Sample.created_agrees, Pool.schedule_execution _ _ _, by decide, ?_, ?_⟩
  · intro i
    cases i <;> exact ⟨(), rfl⟩
  · refine ⟨_, rfl, ?_⟩
    intro h
    exact absurd (h.queued rfl) (by decide)

end MutualCloud.Control
