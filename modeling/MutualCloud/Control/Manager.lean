import MutualCloud.Control.Announce
import MutualCloud.Control.Requeue
import MutualCloud.Library.WakeUp

/-!
# The announce manager

`Enqueue` enters a job into the set `dirty` and then sends a wake-up to a channel with room for
one; `Run` waits for the wake-up or for its ticker, takes the jobs that are due and announces them
one by one. `Manager.Step` interleaves `Run` with any number of handlers and loops, whose calls of
`Enqueue` are two steps each. The manager is a worker with a coalesced wake-up
(`Manager.simulates`), so no wake-up is lost. Nothing ever leaves `dirty`, so a job that was
enqueued once is announced again and again, also after it has ended.
-/

namespace MutualCloud.Control

open Go KeyedTable Interaction Labelled Store

/-- The step is part of no `Enqueue` and records no announcement. -/
def Site.Op.plain : Site.Op → Bool
  | .base (.enqueue _) | .announced _ _ => false
  | _ => true

/-- The jobs that `process` takes: those that were never announced, and those whose last
announcement is an interval ago. A job without an entry in `last` has the zero time. -/
def Site.due (s : Site) (interval : Duration) (now : Time) : List String :=
  s.world.dirty.filter fun id =>
    (s.last id).getD 0 = 0 ∨ interval ≤ now - (s.last id).getD 0

/-- Where `Run` stands: in its select, before it takes the jobs, or in the announcement of a job,
with what is left of it and the jobs that follow. -/
inductive RunState where
  | waiting
  | woken
  | announcing (id : String) (code : SiteCode Unit) (rest : List String)

/-- The manager with everything around it: the handlers and loops, and which of them are between
the two steps of an `Enqueue`. -/
structure Manager (κ : Type) where
  site : Site
  run : RunState
  thread : κ → SiteCode Unit
  sending : κ → Bool

namespace Manager

variable {κ : Type}

/-- The steps. -/
inductive Act (κ : Type) where
  /-- A step of a handler or loop that is not part of an `Enqueue`. -/
  | call (j : κ) (e : Site.Event)
  /-- The first step of `Enqueue`. -/
  | insert (j : κ) (id : String)
  /-- The second step of `Enqueue`. -/
  | send (j : κ)
  /-- `Run` receives a tick. -/
  | tick
  /-- `Run` receives a wake-up. -/
  | trigger
  /-- `Run` takes the jobs that are due. -/
  | snapshot (now : Time) (ids : List String)
  /-- A step of `announceOnce`. -/
  | announce (e : Site.Event)

/-- The handler or loop that takes the step, if it is not one of `Run`. -/
def Act.thread : Act κ → Option κ
  | .call j _ | .insert j _ | .send j => some j
  | .tick | .trigger | .snapshot _ _ | .announce _ => none

/-- `Run` with these jobs left to announce. -/
def goOn (cfg : Config) : List String → RunState
  | [] => .waiting
  | id :: rest => .announcing id (announceOnce cfg id) rest

/-- `Run` in the announcement of a job, which may have ended. -/
def proceed (cfg : Config) (id : String) (rest : List String) : SiteCode Unit → RunState
  | .done _ => goOn cfg rest
  | .call c k => .announcing id (.call c k) rest

variable [DecidableEq κ]

/-- One step of the manager or of what is around it. The order of the jobs that are due is that of
the iteration over a map. -/
inductive Step (cfg : Config) (interval : Duration) : Manager κ → Act κ → Manager κ → Prop where
  | call {m : Manager κ} {j : κ} {e : Site.Event} {k : e.call.Response → SiteCode Unit} {s : Site} :
      m.thread j = .call e.call k → e.call.plain = true → Answers Site.effect m.site e s →
      Step cfg interval m (.call j e)
        { m with site := s, thread := Function.update m.thread j (k e.response) }
  | insert {m : Manager κ} {j : κ} {id : String} {k : Unit → SiteCode Unit} :
      m.thread j = .call (.base (.enqueue id)) k → m.sending j = false →
      Step cfg interval m (.insert j id)
        { m with
          site.world.dirty := m.site.world.dirty.insert id
          sending := Function.update m.sending j true }
  | send {m : Manager κ} {j : κ} {id : String} {k : Unit → SiteCode Unit} :
      m.thread j = .call (.base (.enqueue id)) k → m.sending j = true →
      Step cfg interval m (.send j)
        { m with
          site.world.trigger := true
          thread := Function.update m.thread j (k ())
          sending := Function.update m.sending j false }
  | tick {m : Manager κ} : m.run = .waiting → Step cfg interval m .tick { m with run := .woken }
  | trigger {m : Manager κ} : m.run = .waiting → m.site.world.trigger = true →
      Step cfg interval m .trigger { m with site.world.trigger := false, run := .woken }
  | snapshot {m : Manager κ} {now : Time} {ids : List String} : m.run = .woken →
      ids.Perm (m.site.due interval now) →
      Step cfg interval m (.snapshot now ids) { m with run := goOn cfg ids }
  | announce {m : Manager κ} {id : String} {rest : List String} {e : Site.Event}
      {k : e.call.Response → SiteCode Unit} {s : Site} :
      m.run = .announcing id (.call e.call k) rest → Answers Site.effect m.site e s →
      Step cfg interval m (.announce e)
        { m with site := s, run := proceed cfg id rest (k e.response) }

/-- The manager at its start, with an empty `dirty` and `last` and an empty channel. -/
structure Fresh (m : Manager κ) : Prop where
  dirty : m.site.world.dirty = []
  last : m.site.last = fun _ => none
  trigger : m.site.world.trigger = false
  run : m.run = .waiting
  sending : ∀ j, m.sending j = false

/-- The job was enqueued. -/
def Enqueued (id : String) (history : List (Act κ)) : Prop := ∃ j, Act.insert j id ∈ history

/-- The job was announced, with its time recorded. -/
def Announced (id : String) (history : List (Act κ)) : Prop :=
  ∃ e, Act.announce e ∈ history ∧ ∃ now, e.call = .announced id now

end Manager

/-! ## What the steps do -/

/-- A plain step leaves the manager alone. -/
theorem Site.plain_kept {c : Site.Op} (h : c.plain = true) (input : Site.Input) (s : Site) :
    (Site.effect c input s).2.world.dirty = s.world.dirty ∧
      (Site.effect c input s).2.world.trigger = s.world.trigger ∧
      (Site.effect c input s).2.last = s.last := by
  cases c with
  | base c =>
      cases c with
      | sql | getJSON | timeNow => exact ⟨rfl, rfl, rfl⟩
      | putJSON | delJSON =>
          cases hfault : input.dhtFault <;> simp [Site.effect, Control.effect, hfault]
      | enqueue => cases h
  | key | intn => exact ⟨rfl, rfl, rfl⟩
  | putJSON k v => cases hfault : input.dhtFault <;> simp [Site.effect, hfault]
  | listQueued => cases hfault : input.fault <;> simp [Site.effect, hfault]
  | announced => cases h

/-- Whatever it reads, the code makes plain steps and ends by recording the announcement of the
job. -/
def Records (id : String) : SiteCode Unit → Prop
  | .done _ => False
  | .call c k => (∃ now, c = .announced id now ∧ ∀ r, k r = .done ()) ∨
      c.plain = true ∧ ∀ r, Records id (k r)

/-- Plain steps come before the record. -/
theorem records_bind {id : String} {α : Type} {p : SiteCode α} {f : α → SiteCode Unit}
    (hp : p.Always (fun _ _ => True) fun c => c.plain = true) (hf : ∀ a, Records id (f a)) :
    Records id (p >>= f) := by
  induction p with
  | done a => exact hf a
  | call c k ih => exact .inr ⟨hp.1, fun r => ih r (hp.2 r trivial)⟩

/-- `announceOnce` records its announcement. -/
theorem announce_once_records (cfg : Config) (id : String) : Records id (announceOnce cfg id) := by
  have hget : (Site.getJSON (.manifest id)).Always (fun _ _ => True) fun c => c.plain = true :=
    Site.get_json_always_of rfl rfl
  refine records_bind hget fun result => records_bind ?_ fun man => ?_
  · exact settle_manifest_always (P := fun c => c.plain = true) rfl (fun _ => rfl) (fun _ => rfl)
      result
  · refine records_bind (p := announceAds cfg id man) ?_ fun _ => ?_
    · exact ⟨rfl, fun _ _ => ⟨rfl, fun _ _ => ⟨rfl, fun _ _ => trivial⟩⟩⟩
    · exact .inr ⟨rfl, fun now => .inl ⟨now, rfl, fun _ => rfl⟩⟩

namespace Manager

variable {κ : Type} [DecidableEq κ] {cfg : Config} {interval : Duration}

/-- What every state of a run satisfies: an announcement that is under way will be recorded, and a
handler between two steps is in an `Enqueue`. -/
structure Sound (m : Manager κ) : Prop where
  run : ∀ id code rest, m.run = .announcing id code rest → Records id code
  sending : ∀ j, m.sending j = true → ∃ id k, m.thread j = .call (.base (.enqueue id)) k

omit [DecidableEq κ] in
/-- The first announcement of a list will be recorded. -/
theorem go_on_records {ids : List String} {id : String} {code : SiteCode Unit} {rest : List String}
    (h : goOn cfg ids = .announcing id code rest) : Records id code := by
  cases ids with
  | nil => cases h
  | cons first later =>
      cases h
      exact announce_once_records cfg id

/-- One step keeps the manager sound. -/
theorem Sound.step {m m' : Manager κ} {a : Act κ} (h : m.Sound)
    (hstep : Step cfg interval m a m') : m'.Sound := by
  cases hstep with
  | @call j e k s hcall hplain hanswer =>
      refine ⟨h.run, fun i hi => ?_⟩
      obtain ⟨id, k', hthread⟩ := h.sending i hi
      by_cases hij : i = j
      · subst hij
        rw [hthread] at hcall
        injection hcall with hop
        rw [← hop] at hplain
        cases hplain
      · exact ⟨id, k', (Function.update_of_ne hij _ _).trans hthread⟩
  | @insert j id k hcall hsending =>
      refine ⟨h.run, fun i hi => ?_⟩
      by_cases hij : i = j
      · subst hij
        exact ⟨id, k, hcall⟩
      · exact h.sending i ((Function.update_of_ne hij _ _).symm.trans hi)
  | @send j id k hcall hsending =>
      refine ⟨h.run, fun i hi => ?_⟩
      by_cases hij : i = j
      · subst hij
        have hfalse : Function.update m.sending i false i = true := hi
        rw [Function.update_self] at hfalse
        cases hfalse
      · obtain ⟨id', k', hthread⟩ := h.sending i ((Function.update_of_ne hij _ _).symm.trans hi)
        exact ⟨id', k', (Function.update_of_ne hij _ _).trans hthread⟩
  | tick | trigger => exact ⟨nofun, h.sending⟩
  | snapshot => exact ⟨fun _ _ _ => go_on_records, h.sending⟩
  | @announce id rest e k s hrun hanswer =>
      refine ⟨fun id' code rest' hrun' => ?_, h.sending⟩
      have hrun'' : proceed cfg id rest (k e.response) = .announcing id' code rest' := hrun'
      cases hcode : k e.response with
      | done =>
          rw [hcode] at hrun''
          exact go_on_records hrun''
      | call c k' =>
          rw [hcode] at hrun''
          cases hrun''
          rcases h.run id _ rest hrun with ⟨now, -, hdone⟩ | ⟨-, hrest⟩
          · rw [hdone] at hcode
            cases hcode
          · rw [← hcode]
            exact hrest _

omit [DecidableEq κ] in
/-- The manager is sound at its start. -/
theorem Fresh.sound {m : Manager κ} (h : m.Fresh) : m.Sound := by
  constructor
  · intro id code rest hrun
    rw [h.run] at hrun
    cases hrun
  · intro j hj
    rw [h.sending j] at hj
    cases hj

/-! ## The manager is a worker with a coalesced wake-up -/

/-- The job of the `Enqueue` that the code is at. -/
def nextEnqueue : SiteCode Unit → Option String
  | .call (.base (.enqueue id)) _ => some id
  | _ => none

/-- What `Run` does, as a worker. -/
def worker : RunState → WakeUp.Worker String
  | .waiting => .waiting
  | .woken => .woken
  | .announcing id _ rest => .serving (insert id {x | x ∈ rest})

/-- The manager as a worker with a coalesced wake-up: the jobs that were enqueued and never
announced are owed. -/
def view (m : Manager κ) : WakeUp.State κ String where
  owed := {id | id ∈ m.site.world.dirty ∧ m.site.last id = none}
  asking j := if m.sending j then nextEnqueue (m.thread j) else none
  signal := m.site.world.trigger
  worker := worker m.run

/-- What a step is for the worker. -/
def Act.event : Act κ → Option (WakeUp.Event κ String)
  | call _ _ => none
  | insert j id => some (.ask j id)
  | send j => some (.notify j)
  | tick | trigger => some .wake
  | snapshot _ ids => some (.take {x | x ∈ ids})
  | announce e =>
      match e.call with
      | .announced id _ => some (.serve id)
      | _ => none

/-- `Run` with a list of jobs is a worker with these jobs left to serve. -/
theorem worker_go_on (ids : List String) :
    worker (goOn cfg ids) = .onto {x | x ∈ ids} := by
  unfold WakeUp.Worker.onto
  cases ids with
  | nil => rw [if_pos (by simp)]; rfl
  | cons id rest =>
      rw [if_neg (Set.nonempty_of_mem (x := id) (by simp)).ne_empty]
      refine congrArg WakeUp.Worker.serving ?_
      ext x
      simp

/-- The step of a handler is not seen. -/
theorem view_call {m : Manager κ} {j : κ} {e : Site.Event} {s : Site} (p : SiteCode Unit)
    (hsending : m.sending j = false) (hplain : e.call.plain = true)
    (hanswer : Answers Site.effect m.site e s) :
    view { m with site := s, thread := Function.update m.thread j p } = view m := by
  obtain ⟨hdirty, htrigger, hlast⟩ := Site.plain_kept hplain e.input m.site
  have hs : (Site.effect e.call e.input m.site).2 = s := congrArg Prod.snd hanswer
  rw [hs] at hdirty htrigger hlast
  unfold view
  dsimp only
  rw [hdirty, htrigger, hlast]
  congr 1
  funext i
  by_cases hij : i = j
  · subst hij
    simp [hsending]
  · rw [Function.update_of_ne hij]

/-- The first step of `Enqueue`, for the worker. -/
theorem view_insert {m : Manager κ} {j : κ} {id : String} {k : Unit → SiteCode Unit}
    (hcall : m.thread j = .call (.base (.enqueue id)) k) :
    view { m with
        site.world.dirty := m.site.world.dirty.insert id
        sending := Function.update m.sending j true } =
      { m.view with
        owed := {x | x ∈ m.site.world.dirty.insert id ∧ m.site.last x = none}
        asking := Function.update m.view.asking j (some id) } := by
  unfold view
  congr 1
  funext i
  by_cases hij : i = j
  · subst hij
    simp [hcall, nextEnqueue]
  · simp [Function.update_of_ne hij]

/-- The second step of `Enqueue`, for the worker. -/
theorem view_send (m : Manager κ) (j : κ) (p : SiteCode Unit) :
    view { m with
        site.world.trigger := true
        thread := Function.update m.thread j p
        sending := Function.update m.sending j false } =
      { m.view with asking := Function.update m.view.asking j none, signal := true } := by
  unfold view
  congr 1
  funext i
  by_cases hij : i = j
  · subst hij
    simp
  · simp [Function.update_of_ne hij]

omit [DecidableEq κ] in
/-- The record of an announcement, for the worker. -/
theorem view_record {m : Manager κ} {id : String} {now : Time} {input : Site.Input}
    {response : Unit} {s : Site} (rest : List String)
    (hanswer : Answers Site.effect m.site ⟨.announced id now, input, response⟩ s) :
    view { m with site := s, run := proceed cfg id rest (.done ()) } =
      { m.view with owed := m.view.owed \ {id}, worker := .onto {x | x ∈ rest} } := by
  obtain rfl : (Site.effect (.announced id now) input m.site).2 = s := congrArg Prod.snd hanswer
  unfold view
  rw [proceed, worker_go_on]
  congr 1
  ext x
  by_cases hx : x = id
  · subst hx
    simp [Site.effect]
  · simp [Site.effect, hx]

/-- Every step of a sound manager is one of the worker, or is not seen. -/
theorem Sound.simulates {m m' : Manager κ} {a : Act κ} (h : m.Sound)
    (hstep : Step cfg interval m a m') :
    (∀ event, a.event = some event → WakeUp.Step m.view event m'.view) ∧
      (a.event = none → m'.view = m.view) := by
  cases hstep with
  | @call j e k s hcall hplain hanswer =>
      refine ⟨fun _ => nofun, fun _ => view_call _ ?_ hplain hanswer⟩
      cases hsending : m.sending j with
      | false => rfl
      | true =>
          obtain ⟨id, k', hthread⟩ := h.sending j hsending
          rw [hthread] at hcall
          injection hcall with hop
          rw [← hop] at hplain
          cases hplain
  | @insert j id k hcall hsending =>
      refine ⟨fun event hevent => ?_, nofun⟩
      cases hevent
      rw [view_insert hcall]
      refine .ask ?_ ?_
      · show (if m.sending j = true then _ else none) = none
        rw [hsending]
        rfl
      · intro x hx
        exact (List.mem_insert_iff.mp hx.1).imp_right fun hmem => ⟨hmem, hx.2⟩
  | @send j id k hcall hsending =>
      refine ⟨fun event hevent => ?_, nofun⟩
      cases hevent
      rw [view_send]
      refine .notify ?_
      show (if m.sending j = true then nextEnqueue (m.thread j) else none) ≠ none
      rw [hsending, hcall]
      exact nofun
  | tick hrun =>
      refine ⟨fun event hevent => ?_, nofun⟩
      cases hevent
      exact .wake (congrArg worker hrun)
  | trigger hrun htrigger =>
      refine ⟨fun event hevent => ?_, nofun⟩
      cases hevent
      exact .wake (congrArg worker hrun)
  | @snapshot now ids hrun hperm =>
      refine ⟨fun event hevent => ?_, nofun⟩
      cases hevent
      have hview : view { m with run := goOn cfg ids } =
          { m.view with worker := .onto {x | x ∈ ids} } := by
        unfold view
        rw [worker_go_on]
      rw [hview]
      refine .take (congrArg worker hrun) ?_
      rintro x ⟨hdirty, hlast⟩
      refine hperm.mem_iff.mpr (List.mem_filter.mpr ⟨hdirty, ?_⟩)
      simp [hlast]
  | @announce id rest e k s hrun hanswer =>
      rcases h.run id _ rest hrun with ⟨now, hcall, hdone⟩ | ⟨hplain, hrest⟩
      · obtain ⟨call, input, response⟩ := e
        cases hcall
        refine ⟨fun event hevent => ?_, nofun⟩
        cases hevent
        rw [hdone, view_record rest hanswer]
        refine .serve (congrArg worker hrun) ?_
        rintro x ⟨hx, hne⟩
        exact (Set.mem_insert_iff.mp hx).resolve_left hne
      · have hevent : (Act.announce e : Act κ).event = none := by
          rw [Act.event]
          split
          next id' now hcall =>
              rw [hcall] at hplain
              cases hplain
          next => rfl
        refine ⟨fun event heq => ?_, fun _ => ?_⟩
        · rw [hevent] at heq
          cases heq
        · obtain ⟨hdirty, htrigger, hlast⟩ := Site.plain_kept hplain e.input m.site
          have hs : (Site.effect e.call e.input m.site).2 = s := congrArg Prod.snd hanswer
          rw [hs] at hdirty htrigger hlast
          have hworker : worker (proceed cfg id rest (k e.response)) = worker m.run := by
            have hrecords := hrest e.response
            rw [hrun]
            cases hcode : k e.response with
            | done =>
                rw [hcode] at hrecords
                exact hrecords.elim
            | call => rfl
          unfold view
          dsimp only
          rw [hdirty, htrigger, hlast, hworker]

variable {start m : Manager κ} {history : List (Act κ)}

/-- A run of the manager is sound. -/
theorem sound_run (hstart : start.Fresh)
    (hexec : Execution (Step cfg interval) start history m) : m.Sound :=
  hexec.invariant (I := Sound) hstart.sound fun _ _ _ h hstep => h.step hstep

/-- A run of the manager is a run of a worker with a coalesced wake-up. -/
theorem simulates (hstart : start.Fresh)
    (hexec : Execution (Step cfg interval) start history m) :
    Execution WakeUp.Step start.view (history.filterMap Act.event) m.view :=
  hexec.simulate (I := Sound) view Act.event hstart.sound (fun _ _ _ h hstep => h.step hstep)
    (fun _ _ _ event h hstep hevent => (h.simulates hstep).1 event hevent)
    (fun _ _ _ h hstep hevent => (h.simulates hstep).2 hevent)

/-! ## What a run has done -/

/-- One step enters jobs only, and records announcements only. -/
theorem step_records {m' : Manager κ} {a : Act κ} (h : m.Sound)
    (hstep : Step cfg interval m a m') (id : String) :
    (id ∈ m'.site.world.dirty ↔ id ∈ m.site.world.dirty ∨ ∃ j, a = .insert j id) ∧
      ((∃ t, m'.site.last id = some t) ↔
        (∃ t, m.site.last id = some t) ∨
          ∃ e now, a = .announce e ∧ e.call = .announced id now) := by
  cases hstep with
  | @call j e k s hcall hplain hanswer =>
      obtain ⟨hdirty, -, hlast⟩ := Site.plain_kept hplain e.input m.site
      have hs : (Site.effect e.call e.input m.site).2 = s := congrArg Prod.snd hanswer
      rw [hs] at hdirty hlast
      simp [hdirty, hlast]
  | insert => simp [or_comm, eq_comm]
  | send | tick | trigger | snapshot => simp
  | @announce id' rest e k s hrun hanswer =>
      obtain ⟨call, input, response⟩ := e
      have hs : (Site.effect call input m.site).2 = s := congrArg Prod.snd hanswer
      rcases h.run id' _ rest hrun with ⟨now, hcall, -⟩ | ⟨hplain, -⟩
      · cases hcall
        subst hs
        refine ⟨by simp [Site.effect], ?_⟩
        by_cases hid : id = id'
        · subst hid
          simp [Site.effect]
        · have hid' : id' ≠ id := Ne.symm hid
          simp [Site.effect, Function.update_of_ne hid, hid']
      · obtain ⟨hdirty, -, hlast⟩ := Site.plain_kept hplain input m.site
        rw [hs] at hdirty hlast
        have hne : ∀ now, call ≠ .announced id now := by
          rintro now rfl
          cases hplain
        simp [hdirty, hlast, hne]

/-- The jobs in `dirty` are those that were enqueued, and the jobs in `last` those that were
announced. -/
theorem run_records (hstart : start.Fresh) (hexec : Execution (Step cfg interval) start history m)
    (id : String) :
    (id ∈ m.site.world.dirty ↔ Enqueued id history) ∧
      ((∃ t, m.site.last id = some t) ↔ Announced id history) := by
  induction hexec with
  | refl =>
      rw [hstart.dirty, hstart.last]
      simp [Enqueued, Announced]
  | @snoc before middle finish a hbefore hstep ih =>
      obtain ⟨hdirty, hlast⟩ := step_records (sound_run hstart hbefore) hstep id
      rw [hdirty, hlast, ih.1, ih.2]
      unfold Enqueued Announced
      constructor
      · simp [exists_or, eq_comm]
      · simp only [List.mem_append, List.mem_singleton, or_and_right, exists_or]
        refine or_congr_right ?_
        constructor
        · rintro ⟨e, now, rfl, hcall⟩
          exact ⟨e, rfl, now, hcall⟩
        · rintro ⟨e, rfl, now, hcall⟩
          exact ⟨e, now, rfl, hcall⟩

/-- The job is being announced, or waits for it. -/
def Ahead (id : String) : RunState → Prop
  | .waiting | .woken => False
  | .announcing id' _ rest => id = id' ∨ id ∈ rest

/-- The jobs of a list are ahead. -/
theorem ahead_go_on {ids : List String} {id : String} :
    Ahead id (goOn cfg ids) ↔ id ∈ ids := by
  cases ids with
  | nil => simp [goOn, Ahead]
  | cons first rest => simp [goOn, Ahead]

/-- A job that is ahead stays ahead until its announcement is recorded. -/
theorem Sound.ahead_step {m m' : Manager κ} {a : Act κ} (h : m.Sound)
    (hstep : Step cfg interval m a m') {id : String} (hahead : Ahead id m.run) :
    Announced id [a] ∨ Ahead id m'.run := by
  cases hstep with
  | call | insert | send => exact .inr hahead
  | tick hrun | trigger hrun | snapshot hrun =>
      rw [hrun] at hahead
      exact hahead.elim
  | @announce id' rest e k s hrun hanswer =>
      rw [hrun] at hahead
      rcases h.run id' _ rest hrun with ⟨now, hcall, hdone⟩ | ⟨-, hrest⟩
      · rcases hahead with rfl | hmem
        · exact .inl ⟨e, List.mem_singleton_self _, now, hcall⟩
        · right
          show Ahead id (proceed cfg id' rest (k e.response))
          rw [hdone]
          exact ahead_go_on.mpr hmem
      · right
        have hrecords := hrest e.response
        show Ahead id (proceed cfg id' rest (k e.response))
        cases hcode : k e.response with
        | done =>
            rw [hcode] at hrecords
            exact hrecords.elim
        | call => exact hahead

/-- A job that `Run` took was announced, or is ahead. -/
theorem taken_announced (hstart : start.Fresh)
    (hexec : Execution (Step cfg interval) start history m) {now : Time} {ids : List String}
    (htaken : Act.snapshot now ids ∈ history) {id : String} (hid : id ∈ ids) :
    Announced id history ∨ Ahead id m.run := by
  induction hexec with
  | refl => cases htaken
  | @snoc before middle finish a hbefore hstep ih =>
      have hgrow : ∀ {part : List (Act κ)}, (∀ x ∈ part, x ∈ before ++ [a]) → Announced id part →
          Announced id (before ++ [a]) :=
        fun hsub ⟨e, he, hcall⟩ => ⟨e, hsub _ he, hcall⟩
      rcases List.mem_append.mp htaken with hold | hnew
      · rcases ih hold with hannounced | hahead
        · exact .inl (hgrow (fun x hx => List.mem_append_left _ hx) hannounced)
        · refine ((sound_run hstart hbefore).ahead_step hstep hahead).imp_left ?_
          exact hgrow fun x hx => List.mem_append_right _ hx
      · obtain rfl := List.mem_singleton.mp hnew
        cases hstep
        exact .inr (ahead_go_on.mpr hid)

/-! ## Passes of `Run` -/

/-- `Run` can end an announcement. -/
theorem announce_code (id : String) (rest : List String) (code : SiteCode Unit) (m : Manager κ)
    (hrun : m.run = proceed cfg id rest code) (inputs : ℕ → Site.Input) :
    Execution (Step cfg interval) m ((code.run Site.effect inputs m.site).events.map Act.announce)
      { m with site := (code.run Site.effect inputs m.site).state, run := goOn cfg rest } := by
  induction code generalizing m inputs with
  | done u =>
      have hsame : ({ m with run := goOn cfg rest } : Manager κ) = m := by
        have hrun' : m.run = goOn cfg rest := hrun
        rw [← hrun']
      show Execution _ m [] ({ m with run := goOn cfg rest } : Manager κ)
      rw [hsame]
      exact .refl
  | call c k ih =>
      have hfirst : Step cfg interval m
          (.announce ⟨c, inputs 0, (Site.effect c (inputs 0) m.site).1⟩)
          { m with
            site := (Site.effect c (inputs 0) m.site).2
            run := proceed cfg id rest (k (Site.effect c (inputs 0) m.site).1) } :=
        .announce (e := ⟨c, inputs 0, _⟩) hrun rfl
      exact (Execution.single hfirst).trans (ih _ _ rfl fun n => inputs (n + 1))

/-- `Run` can announce all the jobs that it took, under any input. It makes every step that the
announcement of one of them cannot avoid. -/
theorem announce_all (ids : List String) (m : Manager κ) (hrun : m.run = goOn cfg ids)
    (input : Site.Input) :
    ∃ later s, Execution (Step cfg interval) m later { m with site := s, run := .waiting } ∧
      (∀ a ∈ later, ∃ e, a = .announce e ∧ e.input = input) ∧
      ∀ id ∈ ids, ∀ Q : Site.Op → Prop, (announceOnce cfg id).Inevitably (fun _ _ => True) Q →
        ∃ e, Act.announce e ∈ later ∧ Q e.call := by
  induction ids generalizing m with
  | nil =>
      refine ⟨[], m.site, ?_, by simp, by simp⟩
      have hsame : ({ m with run := .waiting } : Manager κ) = m := by
        have hrun' : m.run = .waiting := hrun
        rw [← hrun']
      rw [hsame]
      exact .refl
  | cons id rest ih =>
      let run := (announceOnce cfg id).run Site.effect (fun _ => input) m.site
      have hfirst : Execution (Step cfg interval) m (run.events.map Act.announce)
          { m with site := run.state, run := goOn cfg rest } :=
        announce_code id rest (announceOnce cfg id) m hrun fun _ => input
      obtain ⟨later, s, hlater, hinputs, hall⟩ :=
        ih { m with site := run.state, run := goOn cfg rest } rfl
      refine ⟨_, s, hfirst.trans hlater, ?_, ?_⟩
      · intro a ha
        rcases List.mem_append.mp ha with ha | ha
        · obtain ⟨e, he, rfl⟩ := List.mem_map.mp ha
          obtain ⟨n, hn⟩ := Prog.run_inputs Site.effect _ _ _ e he
          exact ⟨e, rfl, hn⟩
        · exact hinputs a ha
      · intro id' hid' Q hq
        rcases List.mem_cons.mp hid' with rfl | hid'
        · obtain ⟨e, he, hcall⟩ := Prog.run_inevitably Site.effect hq (fun _ => input) m.site
          exact ⟨e, List.mem_append_left _ (List.mem_map.mpr ⟨e, he, rfl⟩), hcall⟩
        · obtain ⟨e, he, hcall⟩ := hall id' hid' Q hq
          exact ⟨e, List.mem_append_right _ he, hcall⟩

/-- The record is a step that the code cannot avoid. -/
theorem records_inevitably {id : String} {code : SiteCode Unit} (h : Records id code) :
    code.Inevitably (fun _ _ => True) fun c => ∃ now, c = .announced id now := by
  induction code with
  | done => exact h.elim
  | call c k ih =>
      rcases h with ⟨now, hcall, -⟩ | ⟨-, hrest⟩
      · exact .inl ⟨now, hcall⟩
      · exact .inr fun r _ => ih r (hrest r)

/-- No wake-up is lost. When `Run` is in its select and no `Enqueue` is between its two steps, a
job that was enqueued and never announced has left the channel full. No job is dropped: it stays
in `dirty`, `Run` takes it as long as it was never announced, and when `Run` is back in its select
everything that it took was announced. A full channel lets `Run` start such a pass, which it can
end under any input. -/
theorem wake_up_kept (hstart : start.Fresh)
    (hexec : Execution (Step cfg interval) start history m) :
    (m.run = .waiting → (∀ j, m.sending j = false) →
      ∀ id, Enqueued id history → ¬ Announced id history → m.site.world.trigger = true) ∧
    (∀ id, Enqueued id history → id ∈ m.site.world.dirty) ∧
    (∀ id, Enqueued id history → ¬ Announced id history → ∀ now ids m',
      Step cfg interval m (.snapshot now ids) m' → id ∈ ids) ∧
    (m.run = .waiting → ∀ now ids, Act.snapshot now ids ∈ history →
      ∀ id ∈ ids, Announced id history) ∧
    (m.run = .waiting → m.site.world.trigger = true → ∀ now input, ∃ ids later s,
      Execution (Step cfg interval) m (.trigger :: .snapshot now ids :: later)
        { m with site := s, run := .waiting } ∧
      (∀ a ∈ later, ∃ e, a = .announce e ∧ e.input = input) ∧
      ∀ id, Enqueued id history → ¬ Announced id history → Announced id later) := by
  have hdirty : ∀ id, Enqueued id history → id ∈ m.site.world.dirty :=
    fun id => (run_records hstart hexec id).1.mpr
  have hlast : ∀ id, ¬ Announced id history → m.site.last id = none := by
    intro id hnot
    rw [← (run_records hstart hexec id).2, ← Option.isSome_iff_exists] at hnot
    exact Option.not_isSome_iff_eq_none.mp hnot
  have hdue : ∀ id, Enqueued id history → ¬ Announced id history →
      ∀ now, id ∈ m.site.due interval now := by
    intro id henqueued hnot now
    refine List.mem_filter.mpr ⟨hdirty id henqueued, ?_⟩
    simp [hlast id hnot]
  refine ⟨?_, hdirty, ?_, ?_, ?_⟩
  · intro hwaiting hidle id henqueued hnot
    have howed : start.view.owed = ∅ := by
      simp [view, hstart.dirty]
    refine WakeUp.signalled (simulates hstart hexec) howed (congrArg worker hwaiting) ?_
      (x := id) ⟨hdirty id henqueued, hlast id hnot⟩
    intro j
    show (if m.sending j = true then _ else none) = none
    rw [hidle j]
    rfl
  · intro id henqueued hnot now ids m' hstep
    cases hstep with
    | snapshot hrun hperm => exact hperm.mem_iff.mpr (hdue id henqueued hnot now)
  · intro hwaiting now ids htaken id hid
    refine (taken_announced hstart hexec htaken hid).resolve_right ?_
    rw [hwaiting]
    exact fun h => h
  · intro hwaiting htrigger now input
    obtain ⟨later, s, hlater, hinputs, hall⟩ := @announce_all κ _ cfg interval
      (m.site.due interval now)
      { m with site.world.trigger := false, run := goOn cfg (m.site.due interval now) } rfl input
    refine ⟨m.site.due interval now, later, s, ?_, hinputs, ?_⟩
    · have hwake : Step cfg interval m .trigger
          { m with site.world.trigger := false, run := .woken } := .trigger hwaiting htrigger
      have htake : Step cfg interval { m with site.world.trigger := false, run := .woken }
          (.snapshot now (m.site.due interval now))
          { m with site.world.trigger := false, run := goOn cfg (m.site.due interval now) } :=
        .snapshot rfl (List.Perm.refl _)
      exact (Execution.single hwake).trans ((Execution.single htake).trans hlater)
    · intro id henqueued hnot
      obtain ⟨e, he, hcall⟩ := hall id (hdue id henqueued hnot now) _
        (records_inevitably (announce_once_records cfg id))
      exact ⟨e, he, hcall⟩

/-! ## Jobs that have ended -/

/-- The step puts the advertisement or the mirror of the manifest of the job. -/
def Puts (cfg : Config) (id : String) (c : Site.Op) : Prop :=
  (∃ v, c = .base (.putJSON (.taskAd cfg.ns id) v)) ∨
    ∃ v, c = .base (.putJSON (.manifestMirror id) v)

/-- The step writes the advertisement or the mirror of the manifest of the job. -/
def Advertises (cfg : Config) (id : String) (e : Site.Event) : Prop :=
  Puts cfg id e.call ∧ e.input.dhtFault = false

/-- Code on another job puts nothing of this one. -/
theorem announce_once_puts {id id' : String} (h : id ≠ id') :
    (announceOnce cfg id').Always (fun _ _ => True) fun c => ¬ Puts cfg id c := by
  have hkey : ∀ (k : DirKey) op, ¬ Puts cfg id (.key k op) := by
    rintro k op (⟨v, hv⟩ | ⟨v, hv⟩) <;> cases hv
  have hbase : ∀ c : Call, (∀ k v, c ≠ .putJSON k v) → ¬ Puts cfg id (.base c) := by
    rintro c hc (⟨v, hv⟩ | ⟨v, hv⟩)
    · exact hc _ _ (Site.Op.base.inj hv)
    · exact hc _ _ (Site.Op.base.inj hv)
  have htime : (Site.lift timeNow).Always (fun _ _ => True) fun c => ¬ Puts cfg id c :=
    ⟨hbase _ fun _ _ => nofun, fun _ _ => trivial⟩
  have had : ∀ v, ¬ Puts cfg id (.base (.putJSON (.taskAd cfg.ns id') v)) := by
    rintro v (⟨w, hw⟩ | ⟨w, hw⟩)
    · cases hw
      exact h rfl
    · cases hw
  have hmirror : ∀ v, ¬ Puts cfg id (.base (.putJSON (.manifestMirror id') v)) := by
    rintro v (⟨w, hw⟩ | ⟨w, hw⟩)
    · cases hw
    · cases hw
      exact h rfl
  refine Prog.always_bind (Site.get_json_always_of (hkey _ _) (hkey _ _)) fun result => ?_
  refine Prog.always_bind ?_ fun man => Prog.always_bind ?_ fun _ => ?_
  · exact settle_manifest_always htime.1 (fun _ => hkey _ _) (fun _ => hkey _ _) result
  · exact Prog.always_bind htime fun _ => Prog.always_bind ⟨had _, fun _ _ => trivial⟩ fun _ =>
      ⟨hmirror _, fun _ _ => trivial⟩
  · refine Prog.always_bind htime fun _ => ⟨?_, fun _ _ => trivial⟩
    rintro (⟨v, hv⟩ | ⟨v, hv⟩) <;> cases hv

/-- The announcement of a job puts its advertisement. -/
theorem announce_once_inevitably (cfg : Config) (id : String) :
    (announceOnce cfg id).Inevitably (fun _ _ => True) (Puts cfg id) := by
  refine Prog.inevitably_bind (fun result => Prog.inevitably_bind (fun man => ?_) _) _
  exact Or.inr fun _ _ => Or.inl (Or.inl ⟨_, rfl⟩)

/-- The manager has nothing to do with the job. -/
structure Spares (cfg : Config) (id : String) (m : Manager κ) : Prop where
  dirty : id ∉ m.site.world.dirty
  run : ∀ id' code rest, m.run = .announcing id' code rest →
    code.Always (fun _ _ => True) (fun c => ¬ Puts cfg id c) ∧ id ∉ rest

/-- A list without the job has nothing to do with it. -/
theorem go_on_spares {ids : List String} {id : String} (h : id ∉ ids) {id' : String}
    {code : SiteCode Unit} {rest : List String} (hrun : goOn cfg ids = .announcing id' code rest) :
    code.Always (fun _ _ => True) (fun c => ¬ Puts cfg id c) ∧ id ∉ rest := by
  cases ids with
  | nil => cases hrun
  | cons first later =>
      cases hrun
      exact ⟨announce_once_puts (List.ne_of_not_mem_cons h), List.not_mem_of_not_mem_cons h⟩

/-- As long as the job is not enqueued, the manager has nothing to do with it. -/
theorem Spares.step {m m' : Manager κ} {a : Act κ} {id : String} (hsound : m.Sound)
    (h : m.Spares cfg id) (hstep : Step cfg interval m a m') (hnot : ¬ Enqueued id [a]) :
    m'.Spares cfg id ∧ ∀ e, a = .announce e → ¬ Puts cfg id e.call := by
  have hdirty : id ∉ m'.site.world.dirty := by
    rw [(step_records hsound hstep id).1]
    rintro (hold | ⟨j, rfl⟩)
    · exact h.dirty hold
    · exact hnot ⟨j, List.mem_singleton_self _⟩
  cases hstep with
  | call | insert | send => exact ⟨⟨hdirty, h.run⟩, fun _ => nofun⟩
  | tick | trigger => exact ⟨⟨hdirty, nofun⟩, fun _ => nofun⟩
  | @snapshot now ids hrun hperm =>
      have hids : id ∉ ids := fun hid => h.dirty (List.mem_filter.mp (hperm.mem_iff.mp hid)).1
      exact ⟨⟨hdirty, fun _ _ _ => go_on_spares hids⟩, fun _ => nofun⟩
  | @announce id' rest e k s hrun hanswer =>
      obtain ⟨hcode, hrest⟩ := h.run id' _ rest hrun
      refine ⟨⟨hdirty, fun id'' code rest' hrun' => ?_⟩, ?_⟩
      · have hrun'' : proceed cfg id' rest (k e.response) = .announcing id'' code rest' := hrun'
        have hlater := hcode.2 e.response trivial
        cases hk : k e.response with
        | done =>
            rw [hk] at hrun''
            exact go_on_spares hrest hrun''
        | call =>
            rw [hk] at hrun'' hlater
            cases hrun''
            exact ⟨hlater, hrest⟩
      · rintro e' heq
        cases heq
        exact hcode.1

/-- A job that is never enqueued is never advertised. -/
theorem spares_run (hstart : start.Fresh) (hexec : Execution (Step cfg interval) start history m)
    {id : String} (hnot : ¬ Enqueued id history) :
    m.Spares cfg id ∧ ∀ e, Act.announce e ∈ history → ¬ Puts cfg id e.call := by
  induction hexec with
  | refl =>
      refine ⟨⟨by simp [hstart.dirty], fun _ _ _ hrun => ?_⟩, by simp⟩
      rw [hstart.run] at hrun
      cases hrun
  | @snoc before middle finish a hbefore hstep ih =>
      obtain ⟨hspares, hputs⟩ := ih fun ⟨j, hj⟩ => hnot ⟨j, List.mem_append_left _ hj⟩
      obtain ⟨hspares', hlast⟩ := hspares.step (sound_run hstart hbefore) hstep
        fun ⟨j, hj⟩ => hnot ⟨j, List.mem_append_right _ hj⟩
      refine ⟨hspares', fun e he => ?_⟩
      rcases List.mem_append.mp he with he | he
      · exact hputs e he
      · exact hlast e (List.mem_singleton.mp he).symm

/-- `Run` can come back to its select, or to the point where it takes the jobs. -/
theorem Sound.rest (h : m.Sound) (cfg : Config) (interval : Duration) (input : Site.Input) :
    ∃ later m', Execution (Step cfg interval) m later m' ∧ (m'.run = .waiting ∨ m'.run = .woken) ∧
      ∀ a ∈ later, a.thread = none := by
  cases hrun : m.run with
  | waiting => exact ⟨[], m, .refl, .inl hrun, by simp⟩
  | woken => exact ⟨[], m, .refl, .inr hrun, by simp⟩
  | announcing id code rest =>
      have hproceed : m.run = proceed cfg id rest code := by
        have hrecords := h.run id code rest hrun
        cases code with
        | done => exact hrecords.elim
        | call => exact hrun
      have hfirst := @announce_code κ _ cfg interval id rest code m hproceed fun _ => input
      obtain ⟨later, s, hlater, hinputs, -⟩ := @announce_all κ _ cfg interval rest
        { m with
          site := (code.run Site.effect (fun _ => input) m.site).state
          run := goOn cfg rest }
        rfl input
      refine ⟨_, _, hfirst.trans hlater, .inl rfl, fun a hmem => ?_⟩
      rcases List.mem_append.mp hmem with hmem | hmem
      · obtain ⟨e, -, rfl⟩ := List.mem_map.mp hmem
        rfl
      · obtain ⟨e, rfl, -⟩ := hinputs a hmem
        rfl

/-- What was enqueued stays in `dirty`. -/
theorem dirty_grows {m' : Manager κ} (h : m.Sound)
    (hexec : Execution (Step cfg interval) m history m') {id : String}
    (hid : id ∈ m.site.world.dirty) : id ∈ m'.site.world.dirty := by
  have hkept := hexec.invariant (I := fun m : Manager κ => m.Sound ∧ id ∈ m.site.world.dirty)
    ⟨h, hid⟩ ?_
  · exact hkept.2
  · rintro m a m' ⟨hsound, hmem⟩ hstep
    exact ⟨hsound.step hstep, (step_records hsound hstep id).1.mpr (.inl hmem)⟩

/-- A job in `dirty` can be advertised again by steps of `Run` alone. -/
theorem Sound.advertises (h : m.Sound) (cfg : Config) (interval : Duration) {id : String}
    (hid : id ∈ m.site.world.dirty) :
    ∃ after m' e, Execution (Step cfg interval) m after m' ∧ (∀ a ∈ after, a.thread = none) ∧
      Act.announce e ∈ after ∧ Advertises cfg id e := by
  obtain ⟨first, m₁, hfirst, hrun, hquiet⟩ := h.rest cfg interval { now := 0 }
  have hid₁ := dirty_grows h hfirst hid
  obtain ⟨wake, hwake, hquiet'⟩ : ∃ wake, Execution (Step cfg interval) m₁ wake
      { m₁ with run := .woken } ∧ ∀ a ∈ wake, a.thread = none := by
    rcases hrun with hwaiting | hwoken
    · exact ⟨[.tick], .single (.tick hwaiting), by simp [Act.thread]⟩
    · refine ⟨[], ?_, by simp⟩
      rw [← hwoken]
      exact .refl
  -- the clock shows that the last announcement is an interval ago
  let now := (m₁.site.last id).getD 0 + interval
  have htake : Step cfg interval { m₁ with run := .woken }
      (.snapshot now (m₁.site.due interval now))
      { m₁ with run := goOn cfg (m₁.site.due interval now) } := .snapshot rfl (List.Perm.refl _)
  have hdue : id ∈ m₁.site.due interval now := by
    refine List.mem_filter.mpr ⟨hid₁, ?_⟩
    simp [now]
  obtain ⟨later, s, hlater, hinputs, hall⟩ := @announce_all κ _ cfg interval
    (m₁.site.due interval now) { m₁ with run := goOn cfg (m₁.site.due interval now) } rfl
    { now := 0 }
  obtain ⟨e, he, hputs⟩ := hall id hdue _ (announce_once_inevitably cfg id)
  refine ⟨_, _, e, hfirst.trans (hwake.trans ((Execution.single htake).trans hlater)), ?_,
    by simp [he], hputs, ?_⟩
  · intro a ha
    simp only [List.mem_append, List.mem_singleton] at ha
    rcases ha with ha | ha | rfl | ha
    · exact hquiet a ha
    · exact hquiet' a ha
    · rfl
    · obtain ⟨e', rfl, -⟩ := hinputs a ha
      rfl
  · obtain ⟨e', he', hinput⟩ := hinputs _ he
    cases he'
    rw [hinput]

/-- Thread `j` ran `finishHandler` for the request, the store took the finish, and the handler has
ended. -/
structure Finished (ns : String) (env : Env) (r : Request FinishIn) (c : FinishCall) (j : κ)
    (start : Manager κ) (history : List (Act κ)) (m : Manager κ) : Prop where
  request : finishRequest env r = .ok c
  thread : start.thread j = Site.lift (finishHandler env ns r) >>= fun _ => pure ()
  stored : ∃ input, Act.call j ⟨.base (.sql (.finish c.id c.agentID c.token c.outcome)), input,
    .ok (1 : ℕ)⟩ ∈ history
  ended : m.thread j = .done ()

/-- None of these threads takes a step. -/
def Quiet (later : κ → Prop) (history : List (Act κ)) : Prop :=
  ∀ a ∈ history, ∀ j, a.thread = some j → ¬ later j

omit [DecidableEq κ] in
theorem Quiet.append {later : κ → Prop} {history after : List (Act κ)} (h : Quiet later history)
    (h' : Quiet later after) : Quiet later (history ++ after) :=
  fun a ha => (List.mem_append.mp ha).elim (h a) (h' a)

omit [DecidableEq κ] in
/-- Steps of `Run` are of none of the threads. -/
theorem quiet_of_run {later : κ → Prop} (h : ∀ a ∈ history, a.thread = none) :
    Quiet later history := by
  intro a ha j hj
  rw [h a ha] at hj
  cases hj

/-- A handler that has ended takes no step. -/
theorem Step.ended {m m' : Manager κ} {a : Act κ} {j : κ} (hstep : Step cfg interval m a m')
    (hended : m.thread j = .done ()) : a.thread ≠ some j ∧ m'.thread j = .done () := by
  have hother : ∀ {i : κ} {c : Site.Op} {k : c.Response → SiteCode Unit},
      m.thread i = .call c k → i ≠ j := by
    rintro i c k hi rfl
    rw [hended] at hi
    cases hi
  cases hstep with
  | call hthread | send hthread =>
      have hne := hother hthread
      exact ⟨fun h => hne (Option.some.inj h), by simp [Function.update_of_ne hne.symm, hended]⟩
  | insert hthread => exact ⟨fun h => hother hthread (Option.some.inj h), hended⟩
  | tick | trigger | snapshot | announce => exact ⟨nofun, hended⟩

/-- A handler that has ended takes no step in a whole run. -/
theorem ended_quiet {m' : Manager κ} {j : κ} (hexec : Execution (Step cfg interval) m history m')
    (hended : m.thread j = .done ()) : Quiet (· = j) history ∧ m'.thread j = .done () := by
  induction hexec with
  | refl => exact ⟨fun a ha => by simp at ha, hended⟩
  | @snoc before middle finish a _ hstep ih =>
      obtain ⟨hquiet, hmiddle⟩ := ih
      obtain ⟨hother, hfinish⟩ := hstep.ended hmiddle
      refine ⟨hquiet.append fun b hb i hi hij => hother ?_, hfinish⟩
      rw [← List.mem_singleton.mp hb, hi, hij]

omit [DecidableEq κ] in
/-- A job was enqueued in one of two runs. -/
theorem enqueued_append {id : String} {after : List (Act κ)} :
    Enqueued id (history ++ after) ↔ Enqueued id history ∨ Enqueued id after := by
  simp only [Enqueued, List.mem_append, exists_or]

/-- What is in progress can enqueue the job yet, without a step of these threads. -/
def Pending (cfg : Config) (interval : Duration) (later : κ → Prop) (id : String)
    (m : Manager κ) : Prop :=
  ∃ after m', Execution (Step cfg interval) m after m' ∧ Quiet later after ∧ Enqueued id after

/-- A thread that does not enqueue a job goes on like that, and no other step enqueues it. -/
theorem Step.avoids {m m' : Manager κ} {a : Act κ} {later : κ → Prop} {id : String}
    (hstep : Step cfg interval m a m') (hquiet : ∀ j, a.thread = some j → ¬ later j)
    (h : ∀ j, ¬ later j → (m.thread j).Always (fun _ _ => True) (· ≠ .base (.enqueue id))) :
    (∀ j, a ≠ .insert j id) ∧
      ∀ j, ¬ later j → (m'.thread j).Always (fun _ _ => True) (· ≠ .base (.enqueue id)) := by
  -- the thread that moved, and the others
  have hupdate : ∀ {j : κ} {c : Site.Op} {k : c.Response → SiteCode Unit} (r : c.Response),
      m.thread j = .call c k → ¬ later j → ∀ i, ¬ later i →
        (Function.update m.thread j (k r) i).Always (fun _ _ => True)
          (· ≠ .base (.enqueue id)) := by
    intro j c k r hthread hj i hi
    by_cases hsame : i = j
    · subst hsame
      have halways := h i hi
      rw [hthread] at halways
      rw [Function.update_self]
      exact halways.2 r trivial
    · rw [Function.update_of_ne hsame]
      exact h i hi
  cases hstep with
  | call hthread => exact ⟨nofun, hupdate _ hthread (hquiet _ rfl)⟩
  | send hthread => exact ⟨nofun, hupdate _ hthread (hquiet _ rfl)⟩
  | @insert j id' k hthread =>
      refine ⟨fun i heq => ?_, h⟩
      cases heq
      have halways := h j (hquiet j rfl)
      rw [hthread] at halways
      exact halways.1 rfl
  | tick | trigger | snapshot | announce => exact ⟨nofun, h⟩

/-- Nothing is pending when none of the other threads has an `Enqueue` of the job ahead. -/
theorem not_pending_of_avoids {later : κ → Prop} {id : String}
    (h : ∀ j, ¬ later j → (m.thread j).Always (fun _ _ => True) (· ≠ .base (.enqueue id))) :
    ¬ Pending cfg interval later id m := by
  rintro ⟨after, m', hafter, hquiet, henqueued⟩
  have hnone : ¬ Enqueued id after ∧ ∀ j, ¬ later j →
      (m'.thread j).Always (fun _ _ => True) (· ≠ .base (.enqueue id)) := by
    clear henqueued
    induction hafter with
    | refl => exact ⟨fun ⟨_, hj⟩ => (by cases hj), h⟩
    | @snoc before middle finish a _ hstep ih =>
        obtain ⟨hbefore, hmiddle⟩ := ih fun b hb => hquiet b (List.mem_append_left _ hb)
        obtain ⟨hnot, hfinish⟩ := hstep.avoids (hquiet a (by simp)) hmiddle
        refine ⟨fun henqueued => ?_, hfinish⟩
        rcases enqueued_append.mp henqueued with hearlier | ⟨j, hj⟩
        · exact hbefore hearlier
        · exact hnot j (List.mem_singleton.mp hj).symm
  exact hnone.1 henqueued

/-- The manager never advertises a job again after a finish that the store took, in any run in
which no later request is served, whatever else runs and whatever the clock shows, exactly when the
finish does not leave the job in `dirty` and nothing in progress, other than the handler of the
finish, can enqueue it without a later request. -/
theorem finished_unadvertised_iff (hstart : start.Fresh)
    (hexec : Execution (Step cfg interval) start history m) {env : Env} {r : Request FinishIn}
    {c : FinishCall} {j : κ} (hfinished : Finished cfg.ns env r c j start history m)
    (later : κ → Prop) :
    (∀ after m', Execution (Step cfg interval) m after m' → Quiet later after →
      ∀ e, Act.announce e ∈ after → ¬ Advertises cfg c.id e) ↔
    c.id ∉ m.site.world.dirty ∧ ¬ Pending cfg interval (fun i => later i ∨ i = j) c.id m := by
  constructor
  · intro hnever
    -- once the job is in dirty, a tick late enough takes it again
    have hnone : ∀ after m', Execution (Step cfg interval) m after m' → Quiet later after →
        ¬ Enqueued c.id (history ++ after) := by
      intro after m' hafter hquiet henqueued
      have hdirty := (run_records hstart (hexec.trans hafter) c.id).1.mpr henqueued
      obtain ⟨again, m'', e, hagain, hrun, he, hadvertises⟩ :=
        (sound_run hstart (hexec.trans hafter)).advertises cfg interval hdirty
      exact hnever (after ++ again) m'' (hafter.trans hagain) (hquiet.append (quiet_of_run hrun)) e
        (List.mem_append_right _ he) hadvertises
    refine ⟨fun hdirty => ?_, fun ⟨after, m', hafter, hquiet, henqueued⟩ => ?_⟩
    · refine hnone [] m .refl (fun a ha => by cases ha) ?_
      rw [List.append_nil]
      exact (run_records hstart hexec c.id).1.mp hdirty
    · exact hnone after m' hafter (fun a ha i hi hlater => hquiet a ha i hi (.inl hlater))
        (enqueued_append.mpr (.inr henqueued))
  · intro ⟨hdirty, hpending⟩ after m' hafter hquiet e he hadvertises
    -- the handler of the finish has ended, so it is quiet as well
    have hended := (ended_quiet hafter hfinished.ended).1
    have hnone : ¬ Enqueued c.id (history ++ after) := by
      rw [enqueued_append]
      rintro (hbefore | hafterwards)
      · exact hdirty ((run_records hstart hexec c.id).1.mpr hbefore)
      · exact hpending ⟨after, m', hafter, fun a ha i hi hor =>
          hor.elim (hquiet a ha i hi) (hended a ha i hi), hafterwards⟩
    exact (spares_run hstart (hexec.trans hafter) hnone).2 e (List.mem_append_right _ he)
      hadvertises.1

/-- `finishHandler` enqueues nothing. -/
theorem finish_plain (env : Env) (ns : String) (r : Request FinishIn) :
    (Site.lift (finishHandler env ns r) >>= fun _ => pure ()).Always (fun _ _ => True)
      fun c => c.plain = true := by
  have hmirror : ∀ id outcome, (mirrorFinish ns id outcome).Always (fun _ _ => True)
      fun c => (Site.Op.base c).plain = true := by
    intro id outcome
    simp [mirrorFinish, getJSON, timeNow, putJSON, delJSON, Prog.perform, Prog.Always,
      Site.Op.plain]
  refine Prog.always_bind (Prog.Always.embed (P := fun c => (Site.Op.base c).plain = true) ?_
    fun _ h => h) fun _ => trivial
  unfold finishHandler
  split
  · trivial
  next c _ =>
      have hstore : ∀ s : Stmt, (Site.Op.base (.sql s)).plain = true := fun _ => rfl
      refine Prog.always_bind (Prog.always_embed hstore _) fun result => ?_
      cases result with
      | error e => trivial
      | ok u => exact Prog.always_bind (hmirror _ _) fun _ => trivial

/-- A handler that enqueues nothing can run to its end. -/
theorem thread_run {j : κ} {p : SiteCode Unit} (m : Manager κ) (hthread : m.thread j = p)
    (hplain : p.Always (fun _ _ => True) fun c => c.plain = true) (inputs : ℕ → Site.Input) :
    Execution (Step cfg interval) m ((p.run Site.effect inputs m.site).events.map (Act.call j))
      { m with
        site := (p.run Site.effect inputs m.site).state
        thread := Function.update m.thread j (.done ()) } := by
  induction p generalizing m inputs with
  | done u =>
      have hsame :
          ({ m with thread := Function.update m.thread j (.done ()) } : Manager κ) = m := by
        rw [← hthread, Function.update_eq_self]
      show Execution _ m [] ({ m with thread := Function.update m.thread j (.done ()) } : Manager κ)
      rw [hsame]
      exact .refl
  | call c k ih =>
      have hfirst : Step cfg interval m (.call j ⟨c, inputs 0, (Site.effect c (inputs 0) m.site).1⟩)
          { m with
            site := (Site.effect c (inputs 0) m.site).2
            thread := Function.update m.thread j (k (Site.effect c (inputs 0) m.site).1) } :=
        .call (e := ⟨c, inputs 0, _⟩) hthread hplain.1 rfl
      have hrest := ih _ { m with
        site := (Site.effect c (inputs 0) m.site).2
        thread := Function.update m.thread j (k (Site.effect c (inputs 0) m.site).1) }
        (Function.update_self j _ _) (hplain.2 _ trivial) fun n => inputs (n + 1)
      dsimp only at hrest
      rw [Function.update_idem] at hrest
      exact (Execution.single hfirst).trans hrest

end Manager

namespace Sample

/-- `finishHandler` for the request of `finishes`, and an `Enqueue` of its job. -/
def finishAndEnqueue : Bool → SiteCode Unit
  | false => Site.lift (finishHandler noAuth "mc" finishes) >>= fun _ => pure ()
  | true => Site.lift (enqueue "job")

/-- The control server was restarted while the job was leased. -/
def leasedManager : Manager Bool := ⟨leased, .waiting, finishAndEnqueue, fun _ => false⟩

/-- The job was enqueued by the second of them. -/
def enqueuedManager : Manager Bool where
  site := { leased with world.dirty := ["job"], world.trigger := true }
  run := .waiting
  thread := Function.update finishAndEnqueue true (.done ())
  sending := Function.update (Function.update (fun _ => false) true true) true false

/-- The manager once the first of them has run. -/
def finishedFrom (m : Manager Bool) : Manager Bool :=
  { m with
    site := ((finishAndEnqueue false).run Site.effect still m.site).state
    thread := Function.update m.thread false (.done ()) }

/-- The finish that the request asks for. -/
def finishCall : FinishCall := ⟨"job", "a", 1, ⟨true, "cid", none, none⟩⟩

/-- The steps of the handler. -/
def finishSteps (s : Site) : List (Manager.Act Bool) :=
  ((finishAndEnqueue false).run Site.effect still s).events.map (Manager.Act.call false)

theorem leased_manager_fresh : leasedManager.Fresh := ⟨rfl, rfl, rfl, rfl, fun _ => rfl⟩

theorem enqueued_run : Execution (Manager.Step setup second) leasedManager
    [.insert true "job", .send true] enqueuedManager :=
  (Execution.single (.insert rfl rfl)).snoc (.send rfl rfl)

/-- The handler can run to its end wherever it has not begun. -/
theorem finish_run {m : Manager Bool} (h : m.thread false = finishAndEnqueue false) :
    Execution (Manager.Step setup second) m (finishSteps m.site) (finishedFrom m) :=
  Manager.thread_run m h (Manager.finish_plain noAuth "mc" finishes) still

/-- The store takes the finish when that is the first answer of the handler's run. -/
theorem finish_done {start m : Manager Bool} (before : List (Manager.Act Bool))
    (hstart : start.thread false = finishAndEnqueue false)
    (h : .call false ⟨.base (.sql (.finish "job" "a" 1 finishCall.outcome)), still 0,
      .ok (1 : ℕ)⟩ ∈ (finishSteps m.site).head?) :
    Manager.Finished "mc" noAuth finishes finishCall false start
      (before ++ finishSteps m.site) (finishedFrom m) where
  request := rfl
  thread := hstart
  stored := ⟨still 0, List.mem_append_right _ (List.mem_of_mem_head? h)⟩
  ended := by
    show Function.update m.thread false (.done ()) false = _
    exact Function.update_self false _ _

/-- The agent has sent its report twice to a control server that was restarted. -/
def repeatedManager : Manager Bool :=
  { leasedManager with thread := fun _ => finishAndEnqueue false }

end Sample

namespace Manager

/-- The job is enqueued by one of two callers, and the channel is full while `Run` waits. -/
theorem wake_up_kept_enqueued :
    Execution (Step Sample.setup second) Sample.leasedManager
        [.insert true "job", .send true] Sample.enqueuedManager ∧
      Sample.enqueuedManager.run = .waiting ∧
      Sample.enqueuedManager.site.world.trigger = true := by
  refine ⟨Sample.enqueued_run, rfl, ?_⟩
  refine (wake_up_kept Sample.leased_manager_fresh Sample.enqueued_run).1 rfl ?_ "job"
    ⟨true, by simp⟩ ?_
  · intro j
    cases j <;> rfl
  · rintro ⟨e, he, -⟩
    simp at he

/-- A server that was restarted while the job was leased has not enqueued it: the finish is the last
that is heard of the job, although a second report is in progress. -/
theorem finished_unadvertised_iff_restarted :
    let m := Sample.finishedFrom Sample.repeatedManager
    Execution (Step Sample.setup second) Sample.repeatedManager
        (Sample.finishSteps Sample.leased) m ∧
      m.thread true = Sample.finishAndEnqueue false ∧
      ∀ after m', Execution (Step Sample.setup second) m after m' →
        ∀ e, Act.announce e ∈ after → ¬ Advertises Sample.setup "job" e := by
  have hfresh : Sample.repeatedManager.Fresh := ⟨rfl, rfl, rfl, rfl, fun _ => rfl⟩
  have hexec := Sample.finish_run (m := Sample.repeatedManager) rfl
  have hfinished := @Sample.finish_done Sample.repeatedManager Sample.repeatedManager [] rfl rfl
  have hdirty : "job" ∉ (Sample.finishedFrom Sample.repeatedManager).site.world.dirty := by
    rw [(run_records hfresh hexec _).1]
    rintro ⟨j, hj⟩
    obtain ⟨e, -, he⟩ := List.mem_map.mp hj
    cases he
  have hpending : ¬ Pending Sample.setup second (fun i => False ∨ i = false) "job"
      (Sample.finishedFrom Sample.repeatedManager) := by
    refine not_pending_of_avoids fun j hj => ?_
    cases j with
    | false => exact absurd (.inr rfl) hj
    | true =>
        refine (finish_plain Sample.noAuth "mc" Sample.finishes).mono fun c hplain heq => ?_
        rw [heq] at hplain
        cases hplain
  have hnever := (finished_unadvertised_iff hfresh hexec hfinished fun _ => False).mpr
    ⟨hdirty, hpending⟩
  exact ⟨hexec, rfl, fun after m' hafter => hnever after m' hafter fun _ _ _ _ h => h⟩

/-- A job that was enqueued is advertised again after its finish, by steps of `Run` alone. -/
theorem finished_advertised_again :
    ∃ history after m' e,
      Execution (Step Sample.setup second) Sample.leasedManager history
        (Sample.finishedFrom Sample.enqueuedManager) ∧
      Finished "mc" Sample.noAuth Sample.finishes Sample.finishCall false Sample.leasedManager
        history (Sample.finishedFrom Sample.enqueuedManager) ∧
      Execution (Step Sample.setup second) (Sample.finishedFrom Sample.enqueuedManager) after m' ∧
      (∀ a ∈ after, a.thread = none) ∧ Act.announce e ∈ after ∧
      Advertises Sample.setup "job" e := by
  have hexec := Sample.enqueued_run.trans (Sample.finish_run (m := Sample.enqueuedManager) rfl)
  have hdirty := (run_records Sample.leased_manager_fresh hexec "job").1.mpr ⟨true, by simp⟩
  obtain ⟨after, m', e, hafter, hnone, he, hadvertises⟩ :=
    (sound_run Sample.leased_manager_fresh hexec).advertises Sample.setup second hdirty
  have hfinished := @Sample.finish_done Sample.leasedManager Sample.enqueuedManager
    [.insert true "job", .send true] rfl rfl
  exact ⟨_, after, m', e, hexec, hfinished, hafter, hnone, he, hadvertises⟩

end Manager

end MutualCloud.Control
