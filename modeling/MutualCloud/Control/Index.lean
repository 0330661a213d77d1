import MutualCloud.Control.Announce

/-!
# Calls of `addToIndex` beside each other

`addToIndex` reads a shard, appends its id and puts the shard back, in separate steps and without
a compare-and-swap; a read that fails counts as an empty shard. So two calls that pick the same
shard lose an id when they overlap, and a single read that times out loses every id of the shard.
`Stage.Next` says what one step of a call can do. `index_loses_none` excludes the overlap and the
read that fails on a shard with ids, and then no step takes a task off the list.

Calls that do not overlap lose nothing, but each draws its shard anew and looks for its id in that
shard only: `listed_once_iff` says when `ListFromIndex` returns no id twice.
-/

namespace MutualCloud.Control

open Go KeyedTable Interaction Labelled Store

/-! ## Shards -/

namespace Site

/-- The ids that a get finds in a shard. -/
def shardIds (s : Site) (ns : String) (shard : ℕ) : List String :=
  ((s.found (.indexShard ns shard)).getD default).ids

/-- The ids of a shard in `localStore`. -/
def localIds (s : Site) (ns : String) (shard : ℕ) : List String :=
  ((s.keys (.indexShard ns shard)).loc.getD default).ids

variable {s : Site} {ns : String} {shard : ℕ}

/-- Where the network has no shard, a get finds the one in `localStore`. -/
theorem shard_ids_of_net (h : (s.keys (.indexShard ns shard)).net = none) :
    s.shardIds ns shard = s.localIds ns shard := by
  unfold shardIds localIds found
  rw [h]
  rfl

/-- The ids of a shard that is in range are listed. -/
theorem mem_listed_of_shard {id : String} (hshard : shard < taskIndexShardCount)
    (h : id ∈ s.shardIds ns shard) : id ∈ s.listed ns :=
  mem_listed.mpr ⟨shard, hshard, h⟩

/-- A write changes the ids of its own shard only. -/
theorem shard_ids_write (v : Dht.TaskIndex) (n : ℕ) :
    (s.write (.indexShard ns shard) v).shardIds ns n =
      if n = shard then v.ids else s.shardIds ns n := by
  unfold shardIds
  split
  next heq =>
    subst heq
    rw [found_write_self]
    rfl
  next hne =>
    have hkey : DirKey.indexShard ns n ≠ .indexShard ns shard := by simpa using hne
    rw [found_write_of_ne hkey]

/-- A shard that is written with all its ids, and maybe more, keeps every task on the list. -/
theorem listed_write_of_subset {v : Dht.TaskIndex} (h : ∀ x ∈ s.shardIds ns shard, x ∈ v.ids)
    {id : String} (hid : id ∈ s.listed ns) :
    id ∈ (s.write (.indexShard ns shard) v).listed ns := by
  obtain ⟨n, hn, hmem⟩ := mem_listed.mp hid
  refine mem_listed_of_shard hn ?_
  rw [shard_ids_write]
  split
  next heq => exact h id (heq ▸ hmem)
  next => exact hmem

end Site

/-- The step reads the shard. -/
def readsShard (ns : String) (shard : ℕ) : Site.Op → Bool
  | .key (.indexShard ns' shard') .getValue => ns' = ns ∧ shard' = shard
  | _ => false

/-- The step puts the shard. -/
def putsShard (ns : String) (shard : ℕ) : Site.Op → Bool
  | .key (.indexShard ns' shard') (.putValue _) => ns' = ns ∧ shard' = shard
  | _ => false

/-! ## Where a call stands -/

/-- The points of `addToIndex`. -/
inductive IndexStage where
  | choosing
  | reading (shard : ℕ)
  | loading (shard : ℕ)
  | stamping (shard : ℕ) (idx : Dht.TaskIndex)
  | putting (shard : ℕ) (idx : Dht.TaskIndex) (now : Time)
  | returned

namespace IndexStage

/-- The point after the read: a shard that has the id already is left alone. -/
def entering (id : String) (shard : ℕ) (idx : Dht.TaskIndex) : IndexStage :=
  if id ∈ idx.ids then returned else stamping shard idx

/-- The record that is put. -/
def extended (id : String) (idx : Dht.TaskIndex) (now : Time) : Dht.TaskIndex :=
  ⟨idx.ids ++ [id], now, incr idx.version⟩

/-- What is left of a call. -/
def code (ns id : String) : IndexStage → SiteCode (Option String)
  | choosing => addToIndex ns id
  | reading shard => Site.getJSON (.indexShard ns shard) >>= fun
      | .ok idx => enterShard ns id shard idx
      | .error _ => enterShard ns id shard default
  | loading shard => .call (.key (.indexShard ns shard) .loadLocal) fun idx =>
      enterShard ns id shard (idx.getD default)
  | stamping shard idx => .call (.base .timeNow) fun now =>
      Site.putJSON (.indexShard ns shard) (extended id idx now)
  | putting shard idx now => Site.putJSON (.indexShard ns shard) (extended id idx now)
  | returned => .done none

/-- What one step of a call does, as long as its put does not fail: from where to where it comes,
and what it does to the site. -/
inductive Next (ns id : String) (s : Site) (e : Site.Event) : Site → IndexStage → IndexStage → Prop
  | choose {shard : ℕ} (hshard : shard < taskIndexShardCount) :
      Next ns id s e s choosing (reading shard)
  | read {shard : ℕ} {idx : Dht.TaskIndex} (hread : readsShard ns shard e.call = true)
      (hfound : s.shardIds ns shard = idx.ids) :
      Next ns id s e s (reading shard) (entering id shard idx)
  | miss {shard : ℕ} (hread : readsShard ns shard e.call = true)
      (hmiss : e.input.dhtFault = true ∨ (s.keys (.indexShard ns shard)).net = none) :
      Next ns id s e s (reading shard) (loading shard)
  | load {shard : ℕ} :
      Next ns id s e s (loading shard)
        (entering id shard ((s.keys (.indexShard ns shard)).loc.getD default))
  | stamp {shard : ℕ} {idx : Dht.TaskIndex} {now : Time} :
      Next ns id s e s (stamping shard idx) (putting shard idx now)
  | put {shard : ℕ} {idx : Dht.TaskIndex} {now : Time} (hput : putsShard ns shard e.call = true) :
      Next ns id s e (s.write (.indexShard ns shard) (extended id idx now))
        (putting shard idx now) returned

variable {ns id : String} {stage : IndexStage} {s s' : Site} {e : Site.Event}

/-- The code after the read is at its point. -/
theorem entering_code (shard : ℕ) (idx : Dht.TaskIndex) :
    enterShard ns id shard idx = (entering id shard idx).code ns id := by
  unfold enterShard entering
  split <;> rfl

/-- A step on a key that keeps the register keeps the site. -/
theorem keys_kept (k : DirKey) :
    ({ s with keys := Function.update s.keys k (s.keys k) } : Site) = s := by
  simp

/-- Every step of a call is one of `Next`. -/
theorem step {k : e.call.Response → SiteCode (Option String)}
    (h : stage.code ns id = .call e.call k) (hanswer : Answers Site.effect s e s')
    (hput : ∀ shard, putsShard ns shard e.call = true → e.input.dhtFault = false) :
    ∃ stage', k e.response = stage'.code ns id ∧ Next ns id s e s' stage stage' := by
  obtain ⟨call, input, response⟩ := e
  dsimp only at k h hput
  have hstate : (Site.effect call input s).2 = s' := congrArg Prod.snd hanswer
  have hresponse : (Site.effect call input s).1 = response := congrArg Prod.fst hanswer
  cases stage with
  | choosing =>
      cases h
      subst hstate hresponse
      exact ⟨reading (input.rand % taskIndexShardCount), rfl, .choose (Nat.mod_lt _ (by decide))⟩
  | reading shard =>
      cases h
      have hread : readsShard ns shard (.key (.indexShard ns shard) .getValue) = true := by
        simp [readsShard]
      obtain rfl : s = s' := (keys_kept (.indexShard ns shard)).symm.trans hstate
      have hget : (s.keys (.indexShard ns shard)).get input.onKey = response := hresponse
      unfold Dht.Register.get at hget
      cases response with
      | ok idx =>
          refine ⟨_, entering_code shard idx, .read hread ?_⟩
          have hnet : (s.keys (.indexShard ns shard)).net = some idx := by
            split at hget <;> simp_all
          unfold Site.shardIds Site.found
          rw [hnet]
          rfl
      | error e =>
          refine ⟨loading shard, ?_, .miss hread ?_⟩
          · refine congrArg (Prog.call _) (funext fun result => ?_)
            cases result <;> rfl
          · cases hfault : input.dhtFault with
            | true => exact .inl rfl
            | false =>
                right
                rw [input.onKey_reliable hfault] at hget
                cases hnet : (s.keys (.indexShard ns shard)).net with
                | none => rfl
                | some idx =>
                    rw [hnet] at hget
                    cases hget
  | loading shard =>
      cases h
      obtain rfl : s = s' := (keys_kept (.indexShard ns shard)).symm.trans hstate
      have hload : (s.keys (.indexShard ns shard)).loc = response := hresponse
      subst hload
      exact ⟨_, entering_code shard _, .load⟩
  | stamping shard idx =>
      cases h
      subst hstate
      exact ⟨putting shard idx response, rfl, .stamp⟩
  | putting shard idx now =>
      cases h
      have hputs : putsShard ns shard
          (.key (.indexShard ns shard) (.putValue (extended id idx now))) = true := by
        simp [putsShard]
      have hfault := input.onKey_reliable (hput shard hputs)
      have hnone : response = none := by
        rw [← hresponse]
        simp [Site.effect, Dht.effect, hfault]
      have hwrite : s' = s.write (.indexShard ns shard) (extended id idx now) := by
        rw [← hstate]
        simp [Site.effect, Dht.effect, hfault, Site.write]
      subst hnone hwrite
      exact ⟨returned, rfl, .put hputs⟩
  | returned => cases h

end IndexStage

/-! ## Interleavings -/

/-- Calls of `addToIndex` that all are at their start. -/
def additions {τ : Type} (ns : String) (task : τ → String) (s : Site) :
    Pool τ Site.Op Site.Op.Response Site (Option String) :=
  ⟨s, fun i => addToIndex ns (task i)⟩

section Interleaving

variable {τ : Type} [DecidableEq τ]

/-- No call puts a shard that another call has put since it read it, and where a read fails the
ids of the shard are those in `localStore`, which the call goes on with. -/
structure Isolated (ns : String) (start : Pool τ Site.Op Site.Op.Response Site (Option String))
    (history : List (τ × Site.Event)) : Prop where
  alone : ∀ before j e between f after shard,
    history = before ++ (j, e) :: (between ++ (j, f) :: after) →
    readsShard ns shard e.call = true → putsShard ns shard f.call = true →
    ∀ l ∈ between, putsShard ns shard l.2.call = false
  readable : ∀ before j e after shard m, history = before ++ (j, e) :: after →
    Execution (Pool.Step Site.effect) start before m →
    readsShard ns shard e.call = true → e.input.dhtFault = true →
    ∀ x, x ∈ m.shared.shardIds ns shard ↔ x ∈ m.shared.localIds ns shard

/-- What a call holds after it read a shard: the ids of the shard, as long as nobody puts it. -/
def Held (ns : String) (history : List (τ × Site.Event)) (j : τ) (s : Site) (shard : ℕ)
    (ids : List String) : Prop :=
  ∃ before e between, history = before ++ (j, e) :: between ∧
    readsShard ns shard e.call = true ∧
    ((∀ l ∈ between, putsShard ns shard l.2.call = false) →
      ∀ x ∈ s.shardIds ns shard, x ∈ ids)

/-- What is known of a call at each of its points. -/
def IndexStage.Sound (ns id : String) (history : List (τ × Site.Event)) (j : τ) (s : Site) :
    IndexStage → Prop
  | choosing => True
  | reading shard => shard < taskIndexShardCount
  | loading shard => shard < taskIndexShardCount ∧
      Held ns history j s shard (s.localIds ns shard) ∧
      ∀ x ∈ s.localIds ns shard, x ∈ s.listed ns
  | stamping shard idx | putting shard idx _ => shard < taskIndexShardCount ∧
      Held ns history j s shard idx.ids
  | returned => id ∈ s.listed ns

variable {ns : String} {task : τ → String} {s s' : Site} {history : List (τ × Site.Event)}
  {p p' : Pool τ Site.Op Site.Op.Response Site (Option String)}

/-- What the steps of others do to the shards of the namespace: nothing is taken off the list,
`localStore` is kept, and a step that does not put a shard keeps it. -/
structure Gentle (ns : String) (e : Site.Event) (s s' : Site) : Prop where
  listed : ∀ x ∈ s.listed ns, x ∈ s'.listed ns
  localIds : ∀ shard, s'.localIds ns shard = s.localIds ns shard
  shardIds : ∀ shard, putsShard ns shard e.call = false →
    s'.shardIds ns shard = s.shardIds ns shard

omit [DecidableEq τ] in
/-- What a call holds survives a gentle step. -/
theorem Held.snoc {j : τ} {shard : ℕ} {ids : List String} (h : Held ns history j s shard ids)
    {l : τ × Site.Event} (hgentle : Gentle ns l.2 s s') :
    Held ns (history ++ [l]) j s' shard ids := by
  obtain ⟨before, e, between, rfl, hread, hids⟩ := h
  refine ⟨before, e, between ++ [l], by simp, hread, fun hquiet x hx => ?_⟩
  have hlast : putsShard ns shard l.2.call = false := hquiet l (by simp)
  rw [hgentle.shardIds shard hlast] at hx
  exact hids (fun l' hl' => hquiet l' (List.mem_append_left _ hl')) x hx

omit [DecidableEq τ] in
/-- What is known of a call survives a gentle step of another. -/
theorem IndexStage.Sound.snoc {stage : IndexStage} {id : String} {j : τ}
    (h : stage.Sound ns id history j s) {l : τ × Site.Event} (hgentle : Gentle ns l.2 s s') :
    stage.Sound ns id (history ++ [l]) j s' := by
  cases stage with
  | choosing => trivial
  | reading shard => exact h
  | loading shard =>
      obtain ⟨hshard, hheld, hlocal⟩ := h
      show _ ∧ Held _ _ _ _ _ (s'.localIds ns shard) ∧ ∀ x ∈ s'.localIds ns shard, _
      rw [hgentle.localIds shard]
      exact ⟨hshard, hheld.snoc hgentle, fun x hx => hgentle.listed x (hlocal x hx)⟩
  | stamping shard idx | putting shard idx _ => exact ⟨h.1, h.2.snoc hgentle⟩
  | returned => exact hgentle.listed id h

omit [DecidableEq τ] in
/-- A call that has read the ids of a shard goes on soundly. -/
theorem entering_sound {id : String} {j : τ} {shard : ℕ} {idx : Dht.TaskIndex}
    (hshard : shard < taskIndexShardCount) (hheld : Held ns history j s shard idx.ids)
    (hlisted : ∀ x ∈ idx.ids, x ∈ s.listed ns) :
    (IndexStage.entering id shard idx).Sound ns id history j s := by
  unfold IndexStage.entering
  split
  next hmem => exact hlisted id hmem
  next => exact ⟨hshard, hheld⟩

/-- A step that changes nothing is gentle. -/
theorem Gentle.refl (e : Site.Event) (s : Site) : Gentle ns e s s :=
  ⟨fun _ hx => hx, fun _ => rfl, fun _ _ => rfl⟩

/-- The put of a call that holds its shard is gentle, and lists its id. -/
theorem gentle_put {id : String} {shard : ℕ} {idx : Dht.TaskIndex} {e : Site.Event} (now : Time)
    (hput : putsShard ns shard e.call = true) (hids : ∀ x ∈ s.shardIds ns shard, x ∈ idx.ids) :
    Gentle ns e s (s.write (.indexShard ns shard) (IndexStage.extended id idx now)) where
  listed _ hx := Site.listed_write_of_subset (fun y hy => List.mem_append_left _ (hids y hy)) hx
  localIds n := by
    unfold Site.localIds Site.write
    by_cases hkey : DirKey.indexShard ns n = .indexShard ns shard
    · injection hkey with _ hn
      subst hn
      simp
    · simp [Function.update_of_ne hkey]
  shardIds n hn := by
    rw [Site.shard_ids_write, if_neg]
    rintro rfl
    rw [hput] at hn
    cases hn

/-- Every call is at a point, where it is sound. -/
def AllSound (ns : String) (task : τ → String) (history : List (τ × Site.Event))
    (p : Pool τ Site.Op Site.Op.Response Site (Option String)) : Prop :=
  ∀ i, ∃ stage : IndexStage, p.thread i = stage.code ns (task i) ∧
    stage.Sound ns (task i) history i p.shared

variable {start : Pool τ Site.Op Site.Op.Response Site (Option String)} {j : τ} {e : Site.Event}

/-- The call that moves is sound at its next point, and its step is gentle. -/
theorem next_sound {id : String} {stage stage' : IndexStage}
    (hexec : Execution (Pool.Step Site.effect) start history p)
    (hisolated : Isolated ns start (history ++ [(j, e)]))
    (hsound : stage.Sound ns id history j p.shared)
    (hnext : IndexStage.Next ns id p.shared e s' stage stage') :
    Gentle ns e p.shared s' ∧ stage'.Sound ns id (history ++ [(j, e)]) j s' := by
  cases hnext with
  | choose hshard => exact ⟨.refl e _, hshard⟩
  | read hread hfound =>
      refine ⟨.refl e _, entering_sound hsound ⟨history, e, [], rfl, hread, ?_⟩ ?_⟩
      · intro _ x hx
        rwa [hfound] at hx
      · intro x hx
        rw [← hfound] at hx
        exact Site.mem_listed_of_shard hsound hx
  | @miss shard hread hmiss =>
      -- the read fell back to `localStore`, which has the ids of the shard
      have hsame : ∀ x, x ∈ p.shared.shardIds ns shard ↔ x ∈ p.shared.localIds ns shard := by
        rcases hmiss with hfault | hnet
        · exact hisolated.readable history j e [] shard p rfl hexec hread hfault
        · intro x
          rw [Site.shard_ids_of_net hnet]
      refine ⟨.refl e _, hsound, ⟨history, e, [], rfl, hread, fun _ x hx => (hsame x).mp hx⟩, ?_⟩
      intro x hx
      exact Site.mem_listed_of_shard hsound ((hsame x).mpr hx)
  | load =>
      obtain ⟨hshard, hheld, hlocal⟩ := hsound
      exact ⟨.refl e _, entering_sound hshard (hheld.snoc (.refl e _)) hlocal⟩
  | stamp => exact ⟨.refl e _, hsound.1, hsound.2.snoc (.refl e _)⟩
  | @put shard idx now hput =>
      obtain ⟨hshard, before, read, between, rfl, hread, hids⟩ := hsound
      have hquiet := hisolated.alone before j read between e [] shard (by simp) hread hput
      refine ⟨gentle_put now hput (hids hquiet), Site.mem_listed_of_shard hshard ?_⟩
      rw [Site.shard_ids_write, if_pos rfl]
      exact List.mem_append_right _ List.mem_cons_self

/-- One step of an isolated interleaving is gentle and keeps the calls sound. -/
theorem AllSound.step {l : τ × Site.Event} (h : AllSound ns task history p)
    (hexec : Execution (Pool.Step Site.effect) start history p)
    (hstep : Pool.Step Site.effect p l p')
    (hputs : ∀ shard, putsShard ns shard l.2.call = true → l.2.input.dhtFault = false)
    (hisolated : Isolated ns start (history ++ [l])) :
    Gentle ns l.2 p.shared p'.shared ∧ AllSound ns task (history ++ [l]) p' := by
  obtain ⟨j, e⟩ := l
  obtain ⟨k, hcall, hanswer, hthreads⟩ := hstep
  obtain ⟨stage, hcode, hsound⟩ := h j
  obtain ⟨stage', hcode', hnext⟩ := IndexStage.step (hcode.symm.trans hcall) hanswer hputs
  obtain ⟨hgentle, hsound'⟩ := next_sound hexec hisolated hsound hnext
  refine ⟨hgentle, fun i => ?_⟩
  by_cases hij : i = j
  · subst hij
    exact ⟨stage', by rw [hthreads, Function.update_self]; exact hcode', hsound'⟩
  · obtain ⟨stage, hcode, hsound⟩ := h i
    exact ⟨stage, by rw [hthreads, Function.update_of_ne hij]; exact hcode, hsound.snoc hgentle⟩

/-- A part of an isolated interleaving is isolated. -/
theorem Isolated.of_append {later : List (τ × Site.Event)}
    (h : Isolated ns start (history ++ later)) : Isolated ns start history where
  alone before j e between f after shard heq :=
    h.alone before j e between f (after ++ later) shard (by simp [heq])
  readable before j e after shard m heq :=
    h.readable before j e (after ++ later) shard m (by simp [heq])

/-- The calls of an isolated interleaving are sound. -/
theorem all_sound_run (hexec : Execution (Pool.Step Site.effect) (additions ns task s) history p)
    (hputs : ∀ l ∈ history, ∀ shard, putsShard ns shard l.2.call = true →
      l.2.input.dhtFault = false)
    (hisolated : Isolated ns (additions ns task s) history) : AllSound ns task history p := by
  induction hexec with
  | refl => exact fun i => ⟨.choosing, rfl, trivial⟩
  | snoc hbefore hstep ih =>
      have hmiddle := ih (fun l hl => hputs l (List.mem_append_left _ hl)) hisolated.of_append
      exact (hmiddle.step hbefore hstep (hputs _ (by simp)) hisolated).2

/-- Any number of calls of `addToIndex`, where no put of a shard fails but any read may. When the
calls are isolated, no step takes a task off the list of `ListFromIndex`, and the task of every
call that returned nil is on it. -/
theorem index_loses_none (hexec : Execution (Pool.Step Site.effect) (additions ns task s) history p)
    (hputs : ∀ l ∈ history, ∀ shard, putsShard ns shard l.2.call = true →
      l.2.input.dhtFault = false)
    (hisolated : Isolated ns (additions ns task s) history) :
    (∀ before l after m m', history = before ++ l :: after →
      Execution (Pool.Step Site.effect) (additions ns task s) before m →
      Pool.Step Site.effect m l m' →
      ∀ id, Discoverable ns id m.shared → Discoverable ns id m'.shared) ∧
    ∀ i, p.thread i = .done none → Discoverable ns (task i) p.shared := by
  constructor
  · intro before l after m m' hsplit hbefore hstep id hid
    subst hsplit
    have hstart := all_sound_run hbefore (fun l hl => hputs l (List.mem_append_left _ hl))
      hisolated.of_append
    have hprefix : Isolated ns (additions ns task s) (before ++ [l]) := by
      rw [List.append_cons] at hisolated
      exact hisolated.of_append
    obtain ⟨hgentle, -⟩ := hstart.step hbefore hstep (hputs l (by simp)) hprefix
    rw [discoverable_iff] at hid ⊢
    exact hgentle.listed id hid
  · intro i hi
    obtain ⟨stage, hcode, hsound⟩ := all_sound_run hexec hputs hisolated i
    rw [hi] at hcode
    rw [discoverable_iff]
    cases stage with
    | returned => exact hsound
    | choosing | reading | loading | stamping | putting => cases hcode

end Interleaving

/-! ## Ids that get lost -/

namespace Sample

/-- Two tasks. -/
def twoTasks : Bool → String
  | false => "first"
  | true => "second"

/-- Two calls of `addToIndex` on an empty index, which both pick shard 0. -/
def added (task : Bool → String) (plan : List (Bool × Site.Input)) :
    List (Bool × Site.Event) × Pool Bool Site.Op Site.Op.Response Site (Option String) :=
  Pool.schedule Site.effect plan (additions "mc" task Site.empty)

/-- The steps of one call. -/
def adding (i : Bool) : List (Bool × Site.Input) := List.replicate 5 (i, still 0)

/-- One call after the other. -/
def oneByOne : List (Bool × Site.Input) := adding false ++ adding true

/-- Both calls read the shard before one of them puts it. -/
def overlapping : List (Bool × Site.Input) :=
  List.replicate 4 (false, still 0) ++ adding true ++ [(false, still 0)]

/-- The read of the second call times out. -/
def timedOutRead : List (Bool × Site.Input) :=
  adding false ++ (true, still 0) :: (true, { now := 1, dhtFault := true }) ::
    List.replicate 3 (true, still 0)

/-- The step puts a record of the directory. -/
def puts : Site.Op → Bool
  | .key _ (.putValue _) => true
  | _ => false

end Sample

/-- One task is added twice. -/
theorem index_loses_none_twice :
    Isolated "mc" (additions "mc" (fun _ => "first") Site.empty)
        (Sample.added (fun _ => "first") Sample.oneByOne).1 ∧
      Discoverable "mc" "first" (Sample.added (fun _ => "first") Sample.oneByOne).2.shared := by
  have hexec := Pool.schedule_execution Site.effect Sample.oneByOne
    (additions "mc" (fun _ => "first") Site.empty)
  have hreads : ∀ l ∈ (Sample.added (fun _ => "first") Sample.oneByOne).1,
      l.2.input.dhtFault = false := by decide +kernel
  -- the second call finds the task, so there is one put
  have honce : (Sample.added (fun _ => "first") Sample.oneByOne).1.countP
      (fun l => Sample.puts l.2.call) = 1 := by decide +kernel
  have hputs : ∀ shard (c : Site.Op), putsShard "mc" shard c = true → Sample.puts c = true := by
    intro shard c hc
    unfold putsShard at hc
    split at hc
    next => rfl
    next => cases hc
  have hisolated : Isolated "mc" (additions "mc" (fun _ => "first") Site.empty)
      (Sample.added (fun _ => "first") Sample.oneByOne).1 := by
    constructor
    · intro before j e between f after shard hsplit _ hf l hl
      by_contra hput
      rw [Bool.not_eq_false] at hput
      obtain ⟨left, right, rfl⟩ := List.append_of_mem hl
      rw [hsplit] at honce
      simp only [List.countP_append, List.countP_cons, hputs shard _ hput, hputs shard _ hf,
        if_true] at honce
      omega
    · intro before j e after shard m hsplit _ _ hfault
      have hok := hreads (j, e) (by rw [hsplit]; simp)
      rw [hfault] at hok
      cases hok
  refine ⟨hisolated, ?_⟩
  exact (index_loses_none hexec (fun l hl _ _ => hreads l hl) hisolated).2 true rfl

/-- Two calls that overlap on a shard, and a call whose read times out: no put fails, both calls
return nil, and a task is lost. -/
theorem index_loses_second :
    (∀ plan ∈ [Sample.overlapping, Sample.timedOutRead],
      (∀ i, (Sample.added Sample.twoTasks plan).2.thread i = .done none) ∧
      ∀ l ∈ (Sample.added Sample.twoTasks plan).1,
        Sample.puts l.2.call = true → l.2.input.dhtFault = false) ∧
    ¬ Discoverable "mc" "second" (Sample.added Sample.twoTasks Sample.overlapping).2.shared ∧
    ¬ Discoverable "mc" "first" (Sample.added Sample.twoTasks Sample.timedOutRead).2.shared := by
  rw [discoverable_iff, discoverable_iff]
  refine ⟨?_, by decide +kernel, by decide +kernel⟩
  intro plan hplan
  rcases List.mem_pair.mp hplan with rfl | rfl
  · exact ⟨fun i => by cases i <;> rfl, by decide +kernel⟩
  · exact ⟨fun i => by cases i <;> rfl, by decide +kernel⟩

/-! ## Calls one after another -/

/-- A call of `addToIndex` with its inputs. -/
structure IndexCall where
  id : String
  inputs : ℕ → Site.Input

/-- The shard that the call draws. -/
def IndexCall.shard (c : IndexCall) : ℕ := (c.inputs 0).rand % taskIndexShardCount

/-- The site after calls that do not overlap. -/
def afterIndexCalls (ns : String) (s : Site) : List IndexCall → Site
  | [] => s
  | c :: rest => afterIndexCalls ns ((addToIndex ns c.id).run Site.effect c.inputs s).state rest

section Sequential

variable {ns id : String} {s s' : Site}

/-- The id was entered into one shard, unless it was there. -/
structure ShardEntered (ns id : String) (shard : ℕ) (s s' : Site) : Prop where
  own : s'.shardIds ns shard =
    if id ∈ s.shardIds ns shard then s.shardIds ns shard else s.shardIds ns shard ++ [id]
  others : ∀ n, n ≠ shard → s'.shardIds ns n = s.shardIds ns n

/-- The part of a call after the read of its shard. -/
theorem ensures_enter_read {shard : ℕ} {idx : Dht.TaskIndex}
    (hidx : idx.ids = s.shardIds ns shard) :
    (enterShard ns id shard idx).Ensures Site.effect Site.Reliable s fun _ t =>
      ShardEntered ns id shard s t := by
  unfold enterShard
  split
  next hmem =>
    rw [hidx] at hmem
    exact ⟨(if_pos hmem).symm, fun _ _ => rfl⟩
  next hnot =>
    rw [hidx] at hnot
    refine Prog.ensures_bind_state Site.ensures_lift_time_now fun now => ?_
    refine (Site.ensures_put_json _ _).mono ?_
    intro _ t ht
    rw [ht.2]
    constructor
    · rw [Site.shard_ids_write, if_pos rfl, if_neg hnot, hidx]
    · intro n hn
      rw [Site.shard_ids_write, if_neg hn]

/-- A call enters its id into the shard that it draws. -/
theorem add_to_index_run (c : IndexCall) (hreliable : ∀ n, Site.Reliable (c.inputs n)) (s : Site) :
    ShardEntered ns c.id c.shard s ((addToIndex ns c.id).run Site.effect c.inputs s).state := by
  have hread : ((IndexStage.reading c.shard).code ns c.id).Ensures Site.effect Site.Reliable s
      fun _ t => ShardEntered ns c.id c.shard s t := by
    refine Prog.ensures_bind ((Site.ensures_get_json _).mono ?_)
    intro result t hresult
    obtain ⟨rfl, hfound⟩ := hresult
    cases result with
    | ok idx =>
        refine ensures_enter_read ?_
        unfold Site.shardIds
        rw [(hfound idx).mp rfl, Option.getD_some]
    | error e =>
        refine ensures_enter_read ?_
        unfold Site.shardIds
        cases hnone : t.found (.indexShard ns c.shard) with
        | none => rfl
        | some idx => exact nomatch (hfound idx).mpr hnone
  have hcall : addToIndex ns c.id = .call (.intn taskIndexShardCount) fun shard =>
      (IndexStage.reading shard).code ns c.id := rfl
  have hdraw : Site.effect (.intn taskIndexShardCount) (c.inputs 0) s = (c.shard, s) := rfl
  rw [hcall]
  simp only [Prog.run, hdraw]
  exact hread.run fun n => hreliable (n + 1)

/-- What the shards hold after some calls: each shard once the ids whose calls drew it. -/
structure ShardsOf (ns : String) (calls : List IndexCall) (s : Site) : Prop where
  nodup : ∀ shard, (s.shardIds ns shard).Nodup
  mem_iff : ∀ shard id, id ∈ s.shardIds ns shard ↔ ∃ c ∈ calls, c.id = id ∧ c.shard = shard

/-- One more call. -/
theorem ShardsOf.snoc {calls : List IndexCall} {c : IndexCall} (h : ShardsOf ns calls s)
    (hentered : ShardEntered ns c.id c.shard s s') : ShardsOf ns (calls ++ [c]) s' := by
  have hmem : ∀ shard id, id ∈ s'.shardIds ns shard ↔
      id ∈ s.shardIds ns shard ∨ (c.id = id ∧ c.shard = shard) := by
    intro shard id
    by_cases hshard : shard = c.shard
    · subst hshard
      rw [hentered.own]
      split
      next hold =>
        refine ⟨.inl, fun hid => hid.elim (fun hid => hid) fun hid => ?_⟩
        exact hid.1 ▸ hold
      next => simp [eq_comm]
    · rw [hentered.others shard hshard]
      exact ⟨.inl, fun hid => hid.elim (fun hid => hid) fun hid => absurd hid.2.symm hshard⟩
  constructor
  · intro shard
    by_cases hshard : shard = c.shard
    · subst hshard
      rw [hentered.own]
      split
      next => exact h.nodup c.shard
      next hnew =>
        refine List.nodup_append.mpr ⟨h.nodup c.shard, List.nodup_singleton c.id, ?_⟩
        intro x hx y hy heq
        rw [heq, List.mem_singleton.mp hy] at hx
        exact hnew hx
    · rw [hentered.others shard hshard]
      exact h.nodup shard
  · intro shard id
    rw [hmem, h.mem_iff]
    constructor
    · intro hid
      rcases hid with ⟨d, hd, hdid⟩ | hc
      · exact ⟨d, List.mem_append_left _ hd, hdid⟩
      · exact ⟨c, List.mem_append_right _ List.mem_cons_self, hc⟩
    · intro hid
      obtain ⟨d, hd, hdid⟩ := hid
      rcases List.mem_append.mp hd with hd | hd
      · exact .inl ⟨d, hd, hdid⟩
      · exact .inr (List.mem_singleton.mp hd ▸ hdid)

/-- The shards after any calls that do not overlap. -/
theorem ShardsOf.after {before calls : List IndexCall} (h : ShardsOf ns before s)
    (hreliable : ∀ c ∈ calls, ∀ n, Site.Reliable (c.inputs n)) :
    ShardsOf ns (before ++ calls) (afterIndexCalls ns s calls) := by
  induction calls generalizing before s with
  | nil =>
      rw [List.append_nil]
      exact h
  | cons c rest ih =>
      have hfirst := h.snoc (add_to_index_run c (hreliable c List.mem_cons_self) s)
      have hrest := ih hfirst fun d hd => hreliable d (List.mem_cons_of_mem c hd)
      rw [List.append_assoc] at hrest
      exact hrest

/-- The list has no id twice exactly when no id is in two shards. -/
theorem ShardsOf.nodup_iff {calls : List IndexCall} (h : ShardsOf ns calls s) :
    (s.listed ns).Nodup ↔ ∀ c ∈ calls, ∀ d ∈ calls, c.id = d.id → c.shard = d.shard := by
  have hrange : ∀ c : IndexCall, c.shard < taskIndexShardCount :=
    fun c => Nat.mod_lt _ (by decide)
  show (((List.range taskIndexShardCount).flatMap (s.shardIds ns)).Nodup) ↔ _
  rw [List.nodup_flatMap]
  constructor
  · intro hnodup c hc d hd hid
    by_contra hne
    have : Std.Symm (Function.onFun List.Disjoint (s.shardIds ns)) :=
      ⟨fun _ _ hmn _ hn hm => hmn hm hn⟩
    have hdisjoint : List.Disjoint (s.shardIds ns c.shard) (s.shardIds ns d.shard) :=
      hnodup.2.forall (List.mem_range.mpr (hrange c)) (List.mem_range.mpr (hrange d)) hne
    exact hdisjoint ((h.mem_iff _ _).mpr ⟨c, hc, rfl, rfl⟩)
      ((h.mem_iff _ _).mpr ⟨d, hd, hid.symm, rfl⟩)
  · intro hsame
    refine ⟨fun shard _ => h.nodup shard, List.nodup_range.pairwise_of_forall_ne ?_⟩
    intro m _ n _ hne id hm hn
    obtain ⟨c, hc, hcid, rfl⟩ := (h.mem_iff _ _).mp hm
    obtain ⟨d, hd, hdid, rfl⟩ := (h.mem_iff _ _).mp hn
    exact hne (hsame c hc d hd (hcid.trans hdid.symm))

/-- How often the index lists a task. After any calls of `addToIndex` that do not overlap, on a
reliable DHT and from an empty index, `ListFromIndex` returns no id twice if and only if all calls
with one id drew the same shard. -/
theorem listed_once_iff (ns : String) {s : Site} (hempty : ∀ shard, s.shardIds ns shard = [])
    {calls : List IndexCall} (hreliable : ∀ c ∈ calls, ∀ n, Site.Reliable (c.inputs n))
    {inputs : ℕ → Site.Input} (hinputs : ∀ n, Site.Reliable (inputs n)) :
    ((listFromIndex ns).run Site.effect inputs (afterIndexCalls ns s calls)).value.Nodup ↔
      ∀ c ∈ calls, ∀ d ∈ calls, c.id = d.id → c.shard = d.shard := by
  have hstart : ShardsOf ns [] s := by
    constructor
    · intro shard
      rw [hempty]
      exact List.nodup_nil
    · intro shard id
      simp [hempty]
  have hlist : (listFromIndex ns).Ensures Site.effect Site.Reliable (afterIndexCalls ns s calls)
      _ := Site.ensures_list_from_index
  have hvalue := hlist.run hinputs
  rw [hvalue.2]
  exact (hstart.after hreliable).nodup_iff

end Sequential

namespace Sample

/-- A call for the sample task that draws this shard. -/
def drawing (shard : ℕ) : IndexCall := ⟨"job", fun _ => { now := 1, rand := shard }⟩

end Sample

/-- A task that is entered twice into one shard is listed once. -/
theorem listed_once_iff_same :
    ((listFromIndex "mc").run Site.effect (fun _ => { now := 2 })
      (afterIndexCalls "mc" Site.empty [Sample.drawing 7, Sample.drawing 7])).value.Nodup := by
  have hcalls : ∀ c ∈ [Sample.drawing 7, Sample.drawing 7], c = Sample.drawing 7 := by
    intro c hc
    simpa using hc
  have hreliable : ∀ c ∈ [Sample.drawing 7, Sample.drawing 7], ∀ n,
      Site.Reliable (c.inputs n) := by
    intro c hc n
    rw [hcalls c hc]
    rfl
  have hinputs : ∀ n : ℕ, Site.Reliable ((fun _ => { now := 2 } : ℕ → Site.Input) n) :=
    fun _ => rfl
  refine (listed_once_iff "mc" (fun _ => rfl) hreliable hinputs).mpr ?_
  intro c hc d hd _
  rw [hcalls c hc, hcalls d hd]

/-- A task is posted, and entered again when the control server restarts while it is queued. The
two calls draw different shards, and agents find the task twice. -/
theorem restart_lists_twice :
    let posted := ((createTaskHandler Sample.noAuth "mc" Sample.posted).run Site.effect
      (fun _ => { now := 1, rand := 7 }) Site.empty).state
    let restored := ((restoreJobsFromDemand "mc").run Site.effect
      (fun _ => { now := 2, rand := 8 }) posted).state
    ((listFromIndex "mc").run Site.effect (fun _ => { now := 3 }) restored).value =
      ["job", "job"] := by
  decide +kernel

end MutualCloud.Control
