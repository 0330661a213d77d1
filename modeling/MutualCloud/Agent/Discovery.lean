import MutualCloud.Agent.Discover
import MutualCloud.Control.Pace
import MutualCloud.Library.Interference

/-!
# The discoverer of an agent

`Discoverer.Run` lists the index of its namespace at every tick and handles each job that is listed.
The map `seen` keeps it from offering a job again and again: a job is in as many shards as creations
and restarts have put it, and `handleJob` passes it on only when its last offer is half a second ago
(`offers_apart`).
-/

namespace MutualCloud.Agent

open Go KeyedTable Interaction Labelled Store Control

/-! ## The loop -/

/-- `seen` of a `Discoverer`. -/
abbrev Seen := String → Option Time

/-- The offer that `handleJob` made, with the time that it stored for the job. -/
def Handled.made (handled : Handled) : Option (Offer × Time) :=
  Option.map₂ Prod.mk handled.offer handled.seen

/-- The loop of `Run` over the jobs of a tick, with the offers that it makes. -/
def Discoverer.handleEach (dv : Discoverer) :
    List String → Seen → SiteCode (List (Offer × Time) × Seen)
  | [], seen => pure ([], seen)
  | id :: rest, seen => do
      let handled ← dv.handleJob id (seen id)
      let later ← dv.handleEach rest (Function.update seen id handled.seen)
      pure (handled.made.toList ++ later.1, later.2)

/-- One tick of `Run`. -/
def Discoverer.tick (dv : Discoverer) (seen : Seen) : SiteCode (List (Offer × Time) × Seen) := do
  let ids ← listFromIndex dv.ns
  dv.handleEach ids seen

/-- `Run`, for `n` ticks. -/
def Discoverer.run (dv : Discoverer) : ℕ → Seen → SiteCode (List (Offer × Time) × Seen)
  | 0, seen => pure ([], seen)
  | n + 1, seen => do
      let now ← dv.tick seen
      let later ← dv.run n now.2
      pure (now.1 ++ later.1, later.2)

/-! ## How often a job is offered -/

/-- The times that the events read. -/
def readings (events : List Site.Event) : List Time :=
  events.filterMap fun e => e.call.reading e.response

theorem readings_append (first rest : List Site.Event) :
    readings (first ++ rest) = readings first ++ readings rest :=
  List.filterMap_append

/-- From one map to the other the discoverer made these offers: two offers of a job are half a
second apart, and so is an offer from the time that the first map has for the job. -/
structure Paced (seen : Seen) (made : List (Offer × Time)) (seen' : Seen) : Prop where
  apart : made.Pairwise fun a b => a.1.jobID = b.1.jobID → a.2 + second / 2 ≤ b.2
  after : ∀ o ∈ made, ∀ t, seen o.1.jobID = some t → t + second / 2 ≤ o.2
  kept : ∀ o ∈ made, ∃ t, seen' o.1.jobID = some t ∧ o.2 ≤ t
  grows : ∀ id t, seen id = some t → ∃ t', seen' id = some t' ∧ t ≤ t'

namespace Paced

variable {seen seen' seen'' : Seen} {made later : List (Offer × Time)}

/-- No offer, and no change of the map. -/
theorem refl (seen : Seen) : Paced seen [] seen where
  apart := .nil
  after := fun _ ho => (by cases ho)
  kept := fun _ ho => (by cases ho)
  grows := fun _ t ht => ⟨t, ht, le_rfl⟩

/-- Offers one after another. -/
theorem append (h : Paced seen made seen') (h' : Paced seen' later seen'') :
    Paced seen (made ++ later) seen'' where
  apart := by
    refine List.pairwise_append.mpr ⟨h.apart, h'.apart, ?_⟩
    intro a ha b hb hsame
    obtain ⟨t, ht, hle⟩ := h.kept a ha
    have hafter := h'.after b hb t (hsame ▸ ht)
    exact (Int.add_le_add_right hle _).trans hafter
  after := by
    intro o ho t ht
    rcases List.mem_append.mp ho with ho | ho
    · exact h.after o ho t ht
    · obtain ⟨t', ht', hle⟩ := h.grows _ t ht
      exact (Int.add_le_add_right hle _).trans (h'.after o ho t' ht')
  kept := by
    intro o ho
    rcases List.mem_append.mp ho with ho | ho
    · obtain ⟨t, ht, hle⟩ := h.kept o ho
      obtain ⟨t', ht', hle'⟩ := h'.grows _ t ht
      exact ⟨t', ht', hle.trans hle'⟩
    · exact h'.kept o ho
  grows := by
    intro id t ht
    obtain ⟨t', ht', hle⟩ := h.grows id t ht
    obtain ⟨t'', ht'', hle'⟩ := h'.grows id t' ht'
    exact ⟨t'', ht'', hle.trans hle'⟩

/-- One offer. -/
theorem single {offer : Offer} {t : Time}
    (hafter : ∀ t₀, seen offer.jobID = some t₀ → t₀ + second / 2 ≤ t) :
    Paced seen [(offer, t)] (Function.update seen offer.jobID (some t)) where
  apart := List.pairwise_singleton _ _
  after := by
    intro o ho t₀ ht₀
    rw [List.mem_singleton.mp ho] at ht₀ ⊢
    exact hafter t₀ ht₀
  kept := by
    intro o ho
    rw [List.mem_singleton.mp ho]
    exact ⟨t, Function.update_self .., le_rfl⟩
  grows := by
    intro id t₀ ht₀
    by_cases hid : id = offer.jobID
    · subst hid
      have hhalf : (0 : Int) ≤ second / 2 := by decide
      exact ⟨t, Function.update_self .., (Int.le_add_of_nonneg_right hhalf).trans (hafter t₀ ht₀)⟩
    · exact ⟨t₀, by rw [Function.update_of_ne hid, ht₀], le_rfl⟩

end Paced

section Pace

variable {dv : Discoverer} {id : String} {seen : Option Time} {handled : Handled}
  {events : List Site.Event}

/-- What `handleJob` does once it may offer the job: nothing, or one offer with the time that it
reads last. -/
theorem offer_made {seen : Option Time}
    (h : (dv.readTaskAd id >>= fun
      | none => pure ⟨none, seen⟩
      | some ad => dv.offerJob id seen ad).Ends events handled) :
    handled = ⟨none, seen⟩ ∨ ∃ offer t, handled = ⟨some offer, some t⟩ ∧ offer.jobID = id ∧
      t ∈ readings events := by
  obtain ⟨ad, first, rest, rfl, -, h⟩ := h.of_bind
  cases ad with
  | none =>
      cases h
      exact .inl rfl
  | some ad =>
      obtain ⟨m, middle, last, rfl, -, h⟩ := h.of_bind
      cases m with
      | none =>
          cases h
          exact .inl rfl
      | some m =>
          cases h with
          | call input now h =>
              cases h
              refine .inr ⟨_, now, rfl, rfl, ?_⟩
              simp only [readings_append, List.mem_append]
              exact .inr (.inr List.mem_cons_self)

/-- `handleJob` leaves the map as it is, or makes one offer, half a second after the time that the
map has for the job. -/
theorem handle_job_paced {seen : Seen} (h : (dv.handleJob id (seen id)).Ends events handled)
    (hclock : (readings events).Pairwise (· ≤ ·)) :
    Paced seen handled.made.toList (Function.update seen id handled.seen) := by
  have hskip : handled = ⟨none, seen id⟩ →
      Paced seen handled.made.toList (Function.update seen id handled.seen) := by
    rintro rfl
    rw [Function.update_eq_self]
    exact .refl seen
  unfold Discoverer.handleJob at h
  split at h
  · cases h
    exact hskip rfl
  · obtain ⟨st, first, rest, rfl, -, h⟩ := h.of_bind
    split at h
    · cases h
      exact hskip rfl
    · obtain ⟨lately, check, rest, rfl, hcheck, h⟩ := h.of_bind
      split at h
      · cases h
        exact hskip rfl
      next hlately =>
        rcases offer_made h with hnone | ⟨offer, t, rfl, rfl, ht⟩
        · exact hskip hnone
        · refine .single ?_
          intro t₀ ht₀
          -- the clock of the check comes before that of the offer
          rw [ht₀] at hcheck
          cases hcheck with
          | call input now hend =>
              cases hend
              have hhalf : second / 2 ≤ now - t₀ := by simpa using hlately
              rw [readings_append, readings_append] at hclock
              have hlater := (List.pairwise_append.mp hclock).2.1
              have hle : now ≤ t :=
                (List.pairwise_append.mp hlater).2.2 now List.mem_cons_self t ht
              exact (Int.add_le_of_le_sub_left hhalf).trans hle

/-- The loop over the jobs of a tick makes offers that are half a second apart, also when a job is
listed more than once. -/
theorem handle_each_paced {ids : List String} {seen seen' : Seen} {made : List (Offer × Time)}
    (h : (dv.handleEach ids seen).Ends events (made, seen'))
    (hclock : (readings events).Pairwise (· ≤ ·)) : Paced seen made seen' := by
  induction ids generalizing seen made events with
  | nil =>
      cases h
      exact .refl _
  | cons id rest ih =>
      obtain ⟨handled, first, others, rfl, hfirst, h⟩ := h.of_bind
      obtain ⟨later, middle, last, rfl, hlater, h⟩ := h.of_bind
      cases h
      rw [readings_append, readings_append] at hclock
      obtain ⟨hclock, hclock', -⟩ := List.pairwise_append.mp hclock
      exact (handle_job_paced hfirst hclock).append (ih hlater (List.pairwise_append.mp hclock').1)

/-- Offers of one job are half a second apart. However the DHT answers, in every run of `Run` whose
clock does not go back, any two offers of a job are recorded at times that differ by half a second
or more, whatever the shards list and how often. -/
theorem offers_apart {n : ℕ} {seen seen' : Seen} {made : List (Offer × Time)}
    (h : (dv.run n seen).Ends events (made, seen'))
    (hclock : (readings events).Pairwise (· ≤ ·)) :
    made.Pairwise fun a b => a.1.jobID = b.1.jobID → a.2 + second / 2 ≤ b.2 := by
  have hpaced : Paced seen made seen' := by
    induction n generalizing seen made events with
    | zero =>
        cases h
        exact .refl _
    | succ n ih =>
        obtain ⟨now, first, others, rfl, hfirst, h⟩ := h.of_bind
        obtain ⟨later, middle, last, rfl, hlater, h⟩ := h.of_bind
        cases h
        obtain ⟨ids, list, each, rfl, -, heach⟩ := hfirst.of_bind
        rw [readings_append, readings_append, readings_append] at hclock
        obtain ⟨hclock, hclock', -⟩ := List.pairwise_append.mp hclock
        exact (handle_each_paced heach (List.pairwise_append.mp hclock).2.1).append
          (ih hlater (List.pairwise_append.mp hclock').1)
  exact hpaced.apart

end Pace

namespace Sample

/-- The job is in two shards, with an advertisement and a mirror. -/
def doubled : Site where
  world := (World.write Site.empty.world (.taskAd "mc" "job") "ad").write (.manifestMirror "job")
    "providers"
  keys := ((Site.empty.write (.indexShard "mc" 3) ⟨["job"], 0, 1⟩).write (.indexShard "mc" 7)
    ⟨["job"], 0, 1⟩).keys
  last := fun _ => none

/-- Two ticks, a second apart. The first makes 70 calls. -/
def twoTicks : Prog.Run Site.Op Site.Op.Response Site.Input Site (List (Offer × Time) × Seen) :=
  (listener.run 2 fun _ => none).run Site.effect
    (fun n => { now := if n < 70 then 5 else 5 + second }) doubled

end Sample

set_option maxRecDepth 4000 in
/-- The job is listed twice in each of two ticks, and offered once in each. -/
theorem offers_apart_listed_twice :
    Sample.twoTicks.value.1.map (fun o => (o.1.jobID, o.2)) = [("job", 5), ("job", 5 + second)] ∧
      Sample.twoTicks.value.1.Pairwise fun a b =>
        a.1.jobID = b.1.jobID → a.2 + second / 2 ≤ b.2 :=
  ⟨by rfl, offers_apart (Prog.run_ends ..) (by decide)⟩

end MutualCloud.Agent
