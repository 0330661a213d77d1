import Mathlib.Data.List.AList

/-!
# Tables with a primary key

A table is a finite map from keys to rows; the association list carries the proof that no key
occurs twice. `insertNew` is an insertion that ignores a conflict and `update` a conditional
update of the row with one key, whose assignment may fail as a whole. `update_cases` says once
what an update can do, and the `lookup` lemmas say what it leaves alone.

Two tables `Agree` on a part of their rows when they differ in the rest only. Statements that look
at that part keep the agreement and answer the same on both.
-/

namespace KeyedTable

variable {κ ρ ε : Type*} [DecidableEq κ]

/-- Rows of type `ρ` under a primary key of type `κ`. -/
abbrev Table (κ ρ : Type*) := AList (fun _ : κ => ρ)

/-- `INSERT … ON CONFLICT DO NOTHING`, with the number of rows inserted. -/
def insertNew (t : Table κ ρ) (k : κ) (row : ρ) : ℕ × Table κ ρ :=
  match t.lookup k with
  | none => (1, t.insert k row)
  | some _ => (0, t)

/-- `UPDATE … SET … WHERE key = k AND guard`. The result is the row as written, `none` when no
row matched, or the error of an assignment that failed; an error leaves the table as it was. -/
def update (t : Table κ ρ) (k : κ) (guard : ρ → Prop) [DecidablePred guard]
    (set : ρ → Except ε ρ) : Except ε (Option ρ) × Table κ ρ :=
  match t.lookup k with
  | none => (.ok none, t)
  | some row =>
      if guard row then
        match set row with
        | .ok row' => (.ok (some row'), t.insert k row')
        | .error e => (.error e, t)
      else (.ok none, t)

/-- The number of rows an update by primary key affected. -/
def affected : Option ρ → ℕ
  | none => 0
  | some _ => 1

@[simp] theorem affected_none : affected (none : Option ρ) = 0 := rfl

@[simp] theorem affected_some (row : ρ) : affected (some row) = 1 := rfl

/-- An update that reports an affected row has written one. -/
theorem exists_row_of_affected {result : Except ε (Option ρ)} {n : ℕ}
    (h : result.map affected = .ok n) (hn : n ≠ 0) : ∃ row, result = .ok (some row) := by
  cases result with
  | error e => cases h
  | ok returned =>
      cases returned with
      | none => exact absurd (Except.ok.inj h).symm hn
      | some row => exact ⟨row, rfl⟩

/-- An update that returns columns has written a row. -/
theorem exists_row_of_returning {γ : Type*} {f : ρ → γ} {result : Except ε (Option ρ)}
    {columns : Option γ} (h : result.map (Option.map f) = .ok columns) (hc : columns ≠ none) :
    ∃ row, result = .ok (some row) := by
  cases result with
  | error e => cases h
  | ok returned =>
      cases returned with
      | none => exact absurd (Except.ok.inj h).symm hc
      | some row => exact ⟨row, rfl⟩

/-- An insertion that ignores conflicts keeps every row that is there. -/
theorem lookup_insert_new (t : Table κ ρ) (k j : κ) (row : ρ) :
    (insertNew t k row).2.lookup j =
      if j = k then some ((t.lookup k).getD row) else t.lookup j := by
  by_cases hj : j = k
  · subst hj
    cases ht : t.lookup j with
    | none => simp [insertNew, ht]
    | some old => simp [insertNew, ht]
  · cases ht : t.lookup k with
    | none => simp [insertNew, ht, hj, AList.lookup_insert_ne]
    | some old => simp [insertNew, ht, hj]

section Update

variable {t : Table κ ρ} {k : κ} {guard : ρ → Prop} [DecidablePred guard]
  {set : ρ → Except ε ρ}

/-- What a conditional update can do: write one matching row, match nothing, or fail. -/
theorem update_cases {result : Except ε (Option ρ)} {t' : Table κ ρ}
    (h : update t k guard set = (result, t')) :
    (∃ row row', t.lookup k = some row ∧ guard row ∧ set row = .ok row' ∧
      result = .ok (some row') ∧ t' = t.insert k row') ∨
    ((∀ row, t.lookup k = some row → ¬ guard row) ∧ result = .ok none ∧ t' = t) ∨
    (∃ row e, t.lookup k = some row ∧ guard row ∧ set row = .error e ∧
      result = .error e ∧ t' = t) := by
  unfold update at h
  split at h
  next hrow =>
      cases h
      exact .inr (.inl ⟨by simp [hrow], rfl, rfl⟩)
  next row hrow =>
      split at h
      next hguard =>
          split at h
          next row' hset =>
              cases h
              exact .inl ⟨row, row', hrow, hguard, hset, rfl, rfl⟩
          next e hset =>
              cases h
              exact .inr (.inr ⟨row, e, hrow, hguard, hset, rfl, rfl⟩)
      next hguard =>
          cases h
          refine .inr (.inl ⟨?_, rfl, rfl⟩)
          intro other hother
          rw [hrow] at hother
          cases hother
          exact hguard

variable (t k guard set) in
/-- What a conditional update can do to the row with key `j`: write it, or leave it alone and
not return it. -/
theorem update_lookup (j : κ) :
    (j = k ∧ ∃ row row', t.lookup j = some row ∧ guard row ∧ set row = .ok row' ∧
      (update t k guard set).1 = .ok (some row') ∧
      (update t k guard set).2.lookup j = some row') ∨
    ((update t k guard set).2.lookup j = t.lookup j ∧
      (j = k → ∀ row', (update t k guard set).1 ≠ .ok (some row'))) := by
  rcases hu : update t k guard set with ⟨result, t'⟩
  rcases update_cases hu with ⟨row, row', hrow, hguard, hset, rfl, rfl⟩ | ⟨_, rfl, rfl⟩ |
    ⟨row, e, _, _, _, rfl, rfl⟩
  · by_cases hj : j = k
    · subst hj
      exact .inl ⟨rfl, row, row', hrow, hguard, hset, rfl, AList.lookup_insert t⟩
    · exact .inr ⟨AList.lookup_insert_ne hj, fun heq => absurd heq hj⟩
  · exact .inr ⟨rfl, fun _ _ => by simp⟩
  · exact .inr ⟨rfl, fun _ _ => by simp⟩

/-- A matching row whose assignment succeeds is written. -/
theorem update_of_set {row row' : ρ} (hrow : t.lookup k = some row) (hguard : guard row)
    (hset : set row = .ok row') :
    update t k guard set = (.ok (some row'), t.insert k row') := by
  simp [update, hrow, hguard, hset]

/-- A matching row is written, where the assignment cannot fail. -/
theorem update_of_match {f : ρ → ρ} {row : ρ} (hrow : t.lookup k = some row)
    (hguard : guard row) :
    update t k guard (fun row => (.ok (f row) : Except ε ρ)) =
      (.ok (some (f row)), t.insert k (f row)) :=
  update_of_set hrow hguard rfl

/-- Without a matching row the table is left alone. -/
theorem update_of_no_match (h : ∀ row, t.lookup k = some row → ¬ guard row) :
    update t k guard set = (.ok none, t) := by
  cases hrow : t.lookup k with
  | none => simp [update, hrow]
  | some row => simp [update, hrow, h row hrow]

variable (t k guard) in
/-- An update whose assignment cannot fail affects one row or none, as its guard decides. -/
theorem update_affected (f : ρ → ρ) :
    ((∃ row, t.lookup k = some row ∧ guard row) ∧
      (update t k guard fun row => (.ok (f row) : Except ε ρ)).1.map affected = .ok 1) ∨
    ((¬ ∃ row, t.lookup k = some row ∧ guard row) ∧
      (update t k guard fun row => (.ok (f row) : Except ε ρ)).1.map affected = .ok 0) := by
  by_cases hmatch : ∃ row, t.lookup k = some row ∧ guard row
  · obtain ⟨row, hrow, hguard⟩ := hmatch
    refine .inl ⟨⟨row, hrow, hguard⟩, ?_⟩
    rw [update_of_match hrow hguard]
    rfl
  · refine .inr ⟨hmatch, ?_⟩
    rw [update_of_no_match fun row hrow hguard => hmatch ⟨row, hrow, hguard⟩]
    rfl

end Update

/-! ## Agreement on a part of the rows -/

section Agree

/-- An entry with a part of its row. -/
def partOf (part : ρ → ρ) (entry : Σ _ : κ, ρ) : Σ _ : κ, ρ := ⟨entry.1, part entry.2⟩

/-- The tables have the same keys in the same order, and rows with the same part. -/
def Agree (part : ρ → ρ) (t t' : Table κ ρ) : Prop :=
  t.entries.map (partOf part) = t'.entries.map (partOf part)

variable {part : ρ → ρ} {t t' : Table κ ρ}

/-- Tables that agree have rows under the same keys, with the same part. -/
theorem Agree.lookup (h : Agree part t t') (k : κ) :
    (t.lookup k).map part = (t'.lookup k).map part := by
  have hlookup : ∀ t : Table κ ρ, (t.lookup k).map part = (t.entries.map (partOf part)).dlookup k :=
    fun t => (@List.dlookup_map₂ κ _ _ _ t.entries (fun _ => part) k).symm
  rw [hlookup t, hlookup t', h]

/-- Under a key both tables have no row, or rows with the same part. -/
theorem Agree.lookup_cases (h : Agree part t t') (k : κ) :
    (t.lookup k = none ∧ t'.lookup k = none) ∨
      ∃ row row', t.lookup k = some row ∧ t'.lookup k = some row' ∧ part row = part row' := by
  have hlookup := h.lookup k
  cases hrow : t.lookup k with
  | none =>
      rw [hrow, Option.map_none] at hlookup
      exact .inl ⟨rfl, Option.map_eq_none_iff.mp hlookup.symm⟩
  | some row =>
      rw [hrow, Option.map_some] at hlookup
      obtain ⟨row', hrow', hpart⟩ := Option.map_eq_some_iff.mp hlookup.symm
      exact .inr ⟨row, row', rfl, hrow', hpart.symm⟩

/-- Columns of the part of a row are the same in tables that agree. -/
theorem Agree.lookup_map {γ : Type*} (h : Agree part t t') (k : κ) {columns : ρ → γ}
    (hcolumns : ∀ row, columns (part row) = columns row) :
    (t.lookup k).map columns = (t'.lookup k).map columns := by
  have hcolumns' : columns ∘ part = columns := funext hcolumns
  rw [← hcolumns', ← Option.map_map, h.lookup k, Option.map_map]

/-- The removal of a key is one of the parts. -/
theorem map_kerase (part : ρ → ρ) (k : κ) (entries : List (Σ _ : κ, ρ)) :
    (entries.kerase k).map (partOf part) = (entries.map (partOf part)).kerase k := by
  unfold List.kerase
  rw [List.eraseP_map]
  rfl

/-- Rows with the same part may be written to tables that agree. -/
theorem Agree.insert (h : Agree part t t') (k : κ) {row row' : ρ} (hrow : part row = part row') :
    Agree part (t.insert k row) (t'.insert k row') := by
  show partOf part ⟨k, row⟩ :: (t.entries.kerase k).map (partOf part) =
    partOf part ⟨k, row'⟩ :: (t'.entries.kerase k).map (partOf part)
  rw [map_kerase, map_kerase, h, partOf, partOf, hrow]

/-- An insertion that ignores conflicts has one result in tables that agree. -/
theorem Agree.insert_new (h : Agree part t t') (k : κ) (row : ρ) :
    (insertNew t k row).1 = (insertNew t' k row).1 ∧
      Agree part (insertNew t k row).2 (insertNew t' k row).2 := by
  unfold insertNew
  rcases h.lookup_cases k with ⟨hrow, hrow'⟩ | ⟨old, old', hrow, hrow', -⟩
  · rw [hrow, hrow']
    exact ⟨rfl, h.insert k rfl⟩
  · rw [hrow, hrow']
    exact ⟨rfl, h⟩

/-- A conditional update that looks at the part only has one result in tables that agree, for a
caller that sees only the part. -/
theorem Agree.update {γ : Type*} (h : Agree part t t') (k : κ) {guard : ρ → Prop}
    [DecidablePred guard] {set set' : ρ → Except ε ρ} {result : Option ρ → γ}
    (hguard : ∀ row, guard (part row) ↔ guard row)
    (hset : ∀ row row', part row = part row' → (set row).map part = (set' row').map part)
    (hresult : ∀ row, result (some (part row)) = result (some row)) :
    (KeyedTable.update t k guard set).1.map result =
        (KeyedTable.update t' k guard set').1.map result ∧
      Agree part (KeyedTable.update t k guard set).2 (KeyedTable.update t' k guard set').2 := by
  unfold KeyedTable.update
  rcases h.lookup_cases k with ⟨hrow, hrow'⟩ | ⟨row, row', hrow, hrow', hpart⟩
  · rw [hrow, hrow']
    exact ⟨rfl, h⟩
  · have hmatch : guard row ↔ guard row' := by
      rw [← hguard row, hpart, hguard row']
    have hwritten := hset row row' hpart
    rw [hrow, hrow']
    dsimp only
    by_cases hg : guard row
    · rw [if_pos hg, if_pos (hmatch.mp hg)]
      -- both assignments fail with one error, or both write
      cases hs : set row with
      | error e =>
          cases hs' : set' row' with
          | error e' =>
              rw [hs, hs'] at hwritten
              exact ⟨congrArg Except.error (Except.error.inj hwritten), h⟩
          | ok new' => simp [hs, hs', Except.map] at hwritten
      | ok new =>
          cases hs' : set' row' with
          | error e' => simp [hs, hs', Except.map] at hwritten
          | ok new' =>
              rw [hs, hs'] at hwritten
              have hnew : part new = part new' := Except.ok.inj hwritten
              refine ⟨congrArg Except.ok ?_, h.insert k hnew⟩
              rw [← hresult new, hnew, hresult new']
    · rw [if_neg hg, if_neg fun hg' => hg (hmatch.mpr hg')]
      exact ⟨rfl, h⟩

omit [DecidableEq κ] in
/-- Columns of the part are the same in tables that agree. -/
theorem Agree.columns {γ : Type*} (h : Agree part t t') {columns : (Σ _ : κ, ρ) → γ}
    (hcolumns : ∀ entry, columns (partOf part entry) = columns entry) :
    t.entries.map columns = t'.entries.map columns := by
  have hcolumns' : columns ∘ partOf part = columns := funext hcolumns
  rw [← hcolumns', ← List.map_map, h, List.map_map]

omit [DecidableEq κ] in
/-- A selection that looks at the part only has one result in tables that agree. -/
theorem Agree.select {γ : Type*} (h : Agree part t t') {keep : (Σ _ : κ, ρ) → Bool}
    {columns : (Σ _ : κ, ρ) → γ} (hkeep : ∀ entry, keep (partOf part entry) = keep entry)
    (hcolumns : ∀ entry, columns (partOf part entry) = columns entry) :
    (t.entries.filter keep).map columns = (t'.entries.filter keep).map columns := by
  have hparts : ∀ t : Table κ ρ, (t.entries.filter keep).map columns =
      ((t.entries.map (partOf part)).filter keep).map columns := by
    intro t
    have hkeep' : keep ∘ partOf part = keep := funext hkeep
    have hcolumns' : columns ∘ partOf part = columns := funext hcolumns
    rw [List.filter_map, List.map_map, hkeep', hcolumns']
  rw [hparts t, hparts t', h]

end Agree

end KeyedTable
