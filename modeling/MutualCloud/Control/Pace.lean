import MutualCloud.Control.Manager

/-!
# How often a job is announced

Handlers and loops call `Enqueue` for a job at any rate, and every call wakes `Run`. The times in
`AnnounceManager.last` hold it back: `process` takes a job only when its last announcement is an
interval ago, and `announceOnce` records the time that it reads at its end. So, as long as the clock
does not go back, any two announcements of a job are an interval apart, whatever is enqueued
meanwhile (`announcements_apart`).
-/

namespace MutualCloud.Control

open Go KeyedTable Interaction Labelled Store

/-! ## What an announcement records -/

/-- The time that a step reads. -/
def Site.Op.reading : (c : Site.Op) → c.Response → Option Time
  | .base .timeNow, now => some now
  | _, _ => none

/-- Whatever it reads, the code records no time but the last that was read before. -/
def Stamps : SiteCode Unit → Option Time → Prop
  | .done _, _ => True
  | .call c k, latest => (∀ id now, c = .announced id now → latest = some now) ∧
      ∀ r, Stamps (k r) ((c.reading r).or latest)

/-- Plain steps record nothing. -/
theorem stamps_bind {α : Type} {p : SiteCode α} {f : α → SiteCode Unit}
    (hp : p.Always (fun _ _ => True) fun c => c.plain = true)
    (hf : ∀ a latest, Stamps (f a) latest) (latest : Option Time) : Stamps (p >>= f) latest := by
  induction p generalizing latest with
  | done a => exact hf a latest
  | call c k ih =>
      refine ⟨?_, fun r => ih r (hp.2 r trivial) _⟩
      intro id now hc
      have hplain := hp.1
      rw [hc] at hplain
      cases hplain

/-- `announceOnce` records the time that it reads last. -/
theorem announce_once_stamps (cfg : Config) (id : String) (latest : Option Time) :
    Stamps (announceOnce cfg id) latest := by
  have hget : (Site.getJSON (.manifest id)).Always (fun _ _ => True) fun c => c.plain = true :=
    Site.get_json_always_of rfl rfl
  refine stamps_bind hget (fun result => stamps_bind ?_ fun man => ?_) latest
  · exact settle_manifest_always (P := fun c => c.plain = true) rfl (fun _ => rfl) (fun _ => rfl)
      result
  · refine stamps_bind (p := announceAds cfg id man) ?_ fun _ latest => ?_
    · exact ⟨rfl, fun _ _ => ⟨rfl, fun _ _ => ⟨rfl, fun _ _ => trivial⟩⟩⟩
    · refine ⟨fun _ _ h => (by cases h), fun now => ⟨?_, fun _ => trivial⟩⟩
      intro id' now' h
      cases h
      rfl

namespace Manager

variable {κ : Type} {cfg : Config} {interval : Duration} {id : String}
  {history : List (Act κ)} {start m m' : Manager κ} {a : Act κ}

/-- The time that a step of `Run` reads. -/
def Act.reading : Act κ → Option Time
  | .snapshot now _ => some now
  | .announce e => e.call.reading e.response
  | .call _ _ | .insert _ _ | .send _ | .tick | .trigger => none

/-- The time that a step records for the job. -/
def Act.stamp (id : String) : Act κ → Option Time
  | .announce ⟨.announced id' now, _, _⟩ => if id' = id then some now else none
  | _ => none

/-- The times that `Run` reads. -/
def readings (history : List (Act κ)) : List Time := history.filterMap Act.reading

/-- The times of the announcements of the job. -/
def stamps (id : String) (history : List (Act κ)) : List Time := history.filterMap (Act.stamp id)

theorem readings_snoc (history : List (Act κ)) (a : Act κ) :
    readings (history ++ [a]) = readings history ++ a.reading.toList := by
  unfold readings
  rw [List.filterMap_append]
  cases h : a.reading <;> simp [h]

theorem stamps_snoc (id : String) (history : List (Act κ)) (a : Act κ) :
    stamps id (history ++ [a]) = stamps id history ++ (a.stamp id).toList := by
  unfold stamps
  rw [List.filterMap_append]
  cases h : a.stamp id <;> simp [h]

/-- The announcements of the job so far are an interval apart, and when `Run` is at the job or will
come to it, the next one will be an interval after them. -/
structure Paced (interval : Duration) (id : String) (history : List (Act κ)) (m : Manager κ) :
    Prop where
  dirty : m.site.world.dirty.Nodup
  last : m.site.last id = (stamps id history).getLast?
  read : ∀ t ∈ stamps id history, t ∈ readings history
  latest : ∀ t ∈ stamps id history, ∀ t' ∈ (stamps id history).getLast?, t ≤ t'
  apart : (stamps id history).Pairwise fun t t' => t + interval ≤ t'
  run : ∀ id' code rest, m.run = .announcing id' code rest →
    (id' :: rest).Nodup ∧ Stamps code (readings history).getLast?
  ahead : Ahead id m.run → ∃ now ∈ readings history, ∀ t ∈ stamps id history, t + interval ≤ now

/-- The first announcement of a list without repetitions. -/
theorem go_on_run {ids : List String} (hids : ids.Nodup) (latest : Option Time) {id' : String}
    {code : SiteCode Unit} {rest : List String} (h : goOn cfg ids = .announcing id' code rest) :
    (id' :: rest).Nodup ∧ Stamps code latest := by
  cases ids with
  | nil => cases h
  | cons first others =>
      cases h
      exact ⟨hids, announce_once_stamps cfg id' latest⟩

/-- A step that reads and records nothing keeps the pace if it leaves the announcements alone. -/
theorem Paced.of_quiet (h : Paced interval id history m) (hreading : a.reading = none)
    (hstamp : a.stamp id = none) (hdirty : m'.site.world.dirty.Nodup)
    (hlast : m'.site.last id = m.site.last id)
    (hrun : m'.run = m.run ∨ m'.run = .woken) : Paced interval id (history ++ [a]) m' := by
  have hreadings : readings (history ++ [a]) = readings history := by
    rw [readings_snoc, hreading, Option.toList_none, List.append_nil]
  have hstamps : stamps id (history ++ [a]) = stamps id history := by
    rw [stamps_snoc, hstamp, Option.toList_none, List.append_nil]
  constructor
  · exact hdirty
  · rw [hlast, hstamps]
    exact h.last
  · rw [hstamps, hreadings]
    exact h.read
  · rw [hstamps]
    exact h.latest
  · rw [hstamps]
    exact h.apart
  · rw [hreadings]
    rcases hrun with hsame | hwoken
    · rw [hsame]
      exact h.run
    · rw [hwoken]
      exact fun _ _ _ heq => (by cases heq)
  · rw [hreadings, hstamps]
    rcases hrun with hsame | hwoken
    · rw [hsame]
      exact h.ahead
    · rw [hwoken]
      exact fun hahead => hahead.elim

/-- `Run` takes the job only when its last announcement is an interval ago. -/
theorem Paced.snapshot (h : Paced interval id history m) {now : Time} {ids : List String}
    (hpos : ∀ t ∈ readings history, 0 < t) (hids : ids.Perm (m.site.due interval now)) :
    Paced interval id (history ++ [.snapshot now ids]) { m with run := goOn cfg ids } := by
  have hreadings : readings (history ++ [.snapshot now ids]) = readings history ++ [now] :=
    readings_snoc history (.snapshot now ids)
  have hstamps : stamps id (history ++ [.snapshot now ids]) = stamps id history := by
    rw [stamps_snoc]
    exact List.append_nil _
  have hnodup : ids.Nodup := hids.nodup_iff.mpr (h.dirty.filter _)
  refine ⟨h.dirty, ?_, ?_, ?_, ?_, ?_, ?_⟩
  · rw [hstamps]
    exact h.last
  · rw [hstamps, hreadings]
    exact fun t ht => List.mem_append_left _ (h.read t ht)
  · rw [hstamps]
    exact h.latest
  · rw [hstamps]
    exact h.apart
  · exact fun _ _ _ => go_on_run hnodup _
  · intro hahead
    refine ⟨now, by rw [hreadings]; simp, ?_⟩
    rw [hstamps]
    intro t ht
    have hdue := (List.mem_filter.mp (hids.mem_iff.mp (ahead_go_on.mp hahead))).2
    rw [h.last] at hdue
    cases hlast : (stamps id history).getLast? with
    | none =>
        rw [List.getLast?_eq_none_iff.mp hlast] at ht
        cases ht
    | some t' =>
        rw [hlast] at hdue
        have hpos' : t' ≠ 0 := (hpos t' (h.read t' (List.mem_of_getLast? hlast))).ne'
        have hdue' : t' = 0 ∨ interval ≤ now - t' := by simpa using hdue
        calc t + interval ≤ t' + interval := by gcongr; exact h.latest t ht t' hlast
          _ ≤ now := le_sub_iff_add_le'.mp (hdue'.resolve_left hpos')

section Announcement

variable {id' : String} {rest : List String} {e : Site.Event}
  {k : e.call.Response → SiteCode Unit} {s : Site}

/-- A job that is ahead after a step of an announcement was ahead before. -/
theorem ahead_of_proceed {code : SiteCode Unit} (h : Ahead id (proceed cfg id' rest code)) :
    id = id' ∨ id ∈ rest := by
  cases code with
  | done u => exact .inr (ahead_go_on.mp h)
  | call c k' => exact h

/-- What is left of an announcement after a step records the time that was read last. -/
theorem Paced.proceed (h : Paced interval id history m)
    (hrun : m.run = .announcing id' (.call e.call k) rest) {id'' : String} {code : SiteCode Unit}
    {rest' : List String}
    (hnext : proceed cfg id' rest (k e.response) = .announcing id'' code rest') :
    (id'' :: rest').Nodup ∧ Stamps code (readings (history ++ [.announce e])).getLast? := by
  obtain ⟨hnodup, hcode⟩ := h.run id' _ rest hrun
  cases hk : k e.response with
  | done u =>
      rw [hk] at hnext
      exact go_on_run (List.nodup_cons.mp hnodup).2 _ hnext
  | call c k' =>
      rw [hk] at hnext
      cases hnext
      refine ⟨hnodup, ?_⟩
      have hlast : (readings (history ++ [.announce e])).getLast? =
          (e.call.reading e.response).or (readings history).getLast? := by
        rw [readings_snoc, List.getLast?_append]
        show ((e.call.reading e.response).toList.getLast?).or _ = _
        cases e.call.reading e.response <;> rfl
      rw [hlast, ← hk]
      exact hcode.2 e.response

/-- A step of an announcement that records nothing keeps the pace. -/
theorem Paced.plain (h : Paced interval id history m)
    (hrun : m.run = .announcing id' (.call e.call k) rest) (hplain : e.call.plain = true)
    (hanswer : Answers Site.effect m.site e s) :
    Paced interval id (history ++ [.announce e])
      { m with site := s, run := Manager.proceed cfg id' rest (k e.response) } := by
  have hstamps : stamps id (history ++ [.announce e]) = stamps id history := by
    have hnone : (Act.announce (κ := κ) e).stamp id = none := by
      unfold Act.stamp
      split
      next heq =>
          cases heq
          cases hplain
      next => rfl
    rw [stamps_snoc, hnone, Option.toList_none, List.append_nil]
  have hgrows : ∀ t ∈ readings history, t ∈ readings (history ++ [.announce e]) := by
    intro t ht
    rw [readings_snoc]
    exact List.mem_append_left _ ht
  obtain ⟨hdirty, -, hlast⟩ := Site.plain_kept hplain e.input m.site
  have hs : s = (Site.effect e.call e.input m.site).2 := (congrArg Prod.snd hanswer).symm
  rw [← hs] at hdirty hlast
  refine ⟨?_, ?_, ?_, ?_, ?_, fun _ _ _ => h.proceed hrun, ?_⟩
  · show s.world.dirty.Nodup
    rw [hdirty]
    exact h.dirty
  · show s.last id = _
    rw [hlast, hstamps]
    exact h.last
  · rw [hstamps]
    exact fun t ht => hgrows t (h.read t ht)
  · rw [hstamps]
    exact h.latest
  · rw [hstamps]
    exact h.apart
  · intro hahead
    obtain ⟨now, hnow, hall⟩ := h.ahead (by rw [hrun]; exact ahead_of_proceed hahead)
    rw [hstamps]
    exact ⟨now, hgrows now hnow, hall⟩

/-- The record of an announcement keeps the pace. -/
theorem Paced.record (h : Paced interval id history m)
    (hsorted : (readings history).Pairwise (· ≤ ·)) {now : Time} {input : Site.Input}
    {k : Unit → SiteCode Unit}
    (hrun : m.run = .announcing id' (.call (.announced id' now) k) rest)
    (hanswer : Answers Site.effect m.site ⟨.announced id' now, input, ()⟩ s) :
    Paced interval id (history ++ [.announce ⟨.announced id' now, input, ()⟩])
      { m with site := s, run := goOn cfg rest } := by
  obtain ⟨hnodup, hcode⟩ := h.run id' _ rest hrun
  obtain ⟨hother, hrest⟩ := List.nodup_cons.mp hnodup
  have hs : s = { m.site with last := Function.update m.site.last id' (some now) } :=
    (congrArg Prod.snd hanswer).symm
  subst hs
  have hreadings : readings (history ++ [.announce ⟨.announced id' now, input, ()⟩]) =
      readings history := by
    rw [readings_snoc]
    exact List.append_nil _
  have hstamps : stamps id (history ++ [.announce ⟨.announced id' now, input, ()⟩]) =
      stamps id history ++ (if id' = id then some now else none).toList :=
    stamps_snoc id history _
  by_cases hid : id' = id
  · subst hid
    rw [if_pos rfl, Option.toList_some] at hstamps
    -- the time on record is the last that was read, and so the latest
    obtain ⟨earlier, hearlier⟩ := List.getLast?_eq_some_iff.mp (hcode.1 id' now rfl)
    have hmem : now ∈ readings history := by
      rw [hearlier]
      simp
    have hlatest : ∀ t ∈ readings history, t ≤ now := by
      intro t ht
      rw [hearlier] at ht hsorted
      rcases List.mem_append.mp ht with hold | hnow
      · exact (List.pairwise_append.mp hsorted).2.2 t hold now (List.mem_singleton_self now)
      · exact (List.mem_singleton.mp hnow).le
    obtain ⟨taken, htaken, hago⟩ := h.ahead (by rw [hrun]; exact .inl rfl)
    refine ⟨h.dirty, ?_, ?_, ?_, ?_, fun _ _ _ => go_on_run hrest _, ?_⟩
    · rw [hstamps, List.getLast?_concat]
      exact Function.update_self ..
    · rw [hstamps, hreadings]
      intro t ht
      rcases List.mem_append.mp ht with hold | hnow
      · exact h.read t hold
      · rw [List.mem_singleton.mp hnow]
        exact hmem
    · rw [hstamps, List.getLast?_concat]
      intro t ht t' ht'
      cases ht'
      rcases List.mem_append.mp ht with hold | hnow
      · exact hlatest t (h.read t hold)
      · exact (List.mem_singleton.mp hnow).le
    · rw [hstamps, List.pairwise_append]
      refine ⟨h.apart, List.pairwise_singleton _ _, ?_⟩
      intro t ht t' ht'
      rw [List.mem_singleton.mp ht']
      exact (hago t ht).trans (hlatest taken htaken)
    · exact fun hahead => absurd (ahead_go_on.mp hahead) hother
  · rw [if_neg hid, Option.toList_none, List.append_nil] at hstamps
    refine ⟨h.dirty, ?_, ?_, ?_, ?_, fun _ _ _ => go_on_run hrest _, ?_⟩
    · rw [hstamps, ← h.last]
      exact Function.update_of_ne (Ne.symm hid) _ _
    · rw [hstamps, hreadings]
      exact h.read
    · rw [hstamps]
      exact h.latest
    · rw [hstamps]
      exact h.apart
    · intro hahead
      rw [hstamps, hreadings]
      exact h.ahead (by rw [hrun]; exact .inr (ahead_go_on.mp hahead))

end Announcement

variable [DecidableEq κ]

/-- Every step keeps the pace, as long as the clock does not go back. -/
theorem Paced.step (h : Paced interval id history m) (hsound : m.Sound)
    (hsorted : (readings history).Pairwise (· ≤ ·)) (hpos : ∀ t ∈ readings history, 0 < t)
    (hstep : Step cfg interval m a m') : Paced interval id (history ++ [a]) m' := by
  cases hstep with
  | @call j e k s hcall hplain hanswer =>
      obtain ⟨hdirty, -, hlast⟩ := Site.plain_kept hplain e.input m.site
      have hs : s = (Site.effect e.call e.input m.site).2 := (congrArg Prod.snd hanswer).symm
      rw [← hs] at hdirty hlast
      refine h.of_quiet rfl rfl ?_ ?_ (.inl rfl)
      · show s.world.dirty.Nodup
        rw [hdirty]
        exact h.dirty
      · show s.last id = _
        rw [hlast]
  | insert => exact h.of_quiet rfl rfl h.dirty.insert rfl (.inl rfl)
  | send => exact h.of_quiet rfl rfl h.dirty rfl (.inl rfl)
  | tick | trigger => exact h.of_quiet rfl rfl h.dirty rfl (.inr rfl)
  | snapshot _ hids => exact h.snapshot hpos hids
  | @announce id' rest e k s hrun hanswer =>
      rcases hsound.run id' _ rest hrun with ⟨now, hrecord, hdone⟩ | ⟨hplain, -⟩
      · obtain ⟨c, input, response⟩ := e
        cases hrecord
        rw [hdone]
        exact h.record hsorted hrun hanswer
      · exact h.plain hrun hplain hanswer

/-- The announcements of a job are an interval apart. In every run of the manager in which the clock
of `Run` does not go back, whatever the handlers and loops around it enqueue and how often they wake
it, any two announcements of a job are recorded at times that differ by the interval or more. -/
theorem announcements_apart (hstart : start.Fresh)
    (hexec : Execution (Step cfg interval) start history m)
    (hsorted : (readings history).Pairwise (· ≤ ·)) (hpos : ∀ t ∈ readings history, 0 < t)
    (id : String) : (stamps id history).Pairwise fun t t' => t + interval ≤ t' := by
  have hpaced : (readings history).Pairwise (· ≤ ·) → (∀ t ∈ readings history, 0 < t) →
      Paced interval id history m := by
    refine hexec.invariant_history (I := fun history m => (readings history).Pairwise (· ≤ ·) →
      (∀ t ∈ readings history, 0 < t) → Paced interval id history m) ?_ ?_
    · intro _ _
      exact ⟨by rw [hstart.dirty]; exact List.nodup_nil, by rw [hstart.last]; rfl,
        fun t ht => (by cases ht), fun t ht => (by cases ht), .nil,
        fun id' code rest hrun => (by rw [hstart.run] at hrun; cases hrun),
        fun hahead => (by rw [hstart.run] at hahead; exact hahead.elim)⟩
    · intro before m a m' hbefore hpaced hstep hsorted hpos
      rw [readings_snoc] at hsorted hpos
      have hsorted' := (List.pairwise_append.mp hsorted).1
      have hpos' : ∀ t ∈ readings before, 0 < t := fun t ht => hpos t (List.mem_append_left _ ht)
      exact (hpaced hsorted' hpos').step (sound_run hstart hbefore) hsorted' hpos' hstep
  exact (hpaced hsorted hpos).apart

end Manager

namespace Sample

/-- The steps of `Run` that announce the job at this time. -/
def announcing (now : Time) (m : Manager Bool) : List (Manager.Act Bool) :=
  ((announceOnce setup "job").run Site.effect (fun _ => { now := now }) m.site).events.map .announce

/-- The manager once `Run` has announced the job. -/
def announced (now : Time) (m : Manager Bool) : Manager Bool where
  site := ((announceOnce setup "job").run Site.effect (fun _ => { now := now }) m.site).state
  run := .waiting
  thread := m.thread
  sending := m.sending

/-- `Run` has received the wake-up, and the channel is empty. -/
def wokenManager : Manager Bool :=
  { enqueuedManager with site.world.trigger := false, run := .woken }

/-- The job was announced once, and `Run` has received a tick. -/
def tickedManager : Manager Bool := { announced 5 wokenManager with run := .woken }

/-- `Run` announces the job twice, a second apart. -/
def twice : List (Manager.Act Bool) :=
  [.insert true "job", .send true, .trigger, .snapshot 5 ["job"]] ++ announcing 5 wokenManager ++
    [.tick, .snapshot (5 + second) ["job"]] ++ announcing (5 + second) tickedManager

/-- `Run` can take the job and announce it, once it is due. -/
theorem announcing_run {m : Manager Bool} {now : Time} (hrun : m.run = .woken)
    (hdue : m.site.due second now = ["job"]) :
    Execution (Manager.Step setup second) m (.snapshot now ["job"] :: announcing now m)
      (announced now m) := by
  have htake : Manager.Step setup second m (.snapshot now ["job"])
      { m with run := Manager.goOn setup ["job"] } := .snapshot hrun (.of_eq hdue.symm)
  exact (Execution.single htake).trans
    (Manager.announce_code "job" [] (announceOnce setup "job") _ rfl _)

theorem twice_run : Execution (Manager.Step setup second) leasedManager twice
    (announced (5 + second) tickedManager) := by
  have hwoken : Execution (Manager.Step setup second) leasedManager _ wokenManager :=
    enqueued_run.snoc (.trigger rfl rfl)
  have hdue : wokenManager.site.due second 5 = ["job"] := by decide
  have hfirst := hwoken.trans (announcing_run rfl hdue)
  have hticked : Execution (Manager.Step setup second) leasedManager _ tickedManager :=
    hfirst.snoc (.tick rfl)
  exact hticked.trans (announcing_run rfl (by decide))

end Sample

/-- The two announcements are a second apart. -/
theorem Manager.announcements_apart_twice :
    stamps "job" Sample.twice = [5, 5 + second] ∧
      (stamps "job" Sample.twice).Pairwise fun t t' => t + second ≤ t' :=
  ⟨by decide, announcements_apart Sample.leased_manager_fresh Sample.twice_run (by decide)
    (by decide) "job"⟩

end MutualCloud.Control
