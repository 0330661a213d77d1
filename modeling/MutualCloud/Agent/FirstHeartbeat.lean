import MutualCloud.Agent.Candidate
import MutualCloud.Control.Announce
import Mathlib.Tactic.Linarith

/-!
# The ticker of the heartbeats

After a claim `onCandidate` of `cmd/agent/main.go` waits for the manifest of the job, and only then
starts the ticker of its heartbeats. `WaitForManifest` of `pkg/agent/wait_manifest.go` polls until a
manifest has a provider or its deadline has passed; the manifest of a job without inputs has none
and never gets one. `first_heartbeat_iff` compares the first tick with the expiry of the lease. The
clock is at zero when the lease is granted.

The period of the ticker is corrected against the time to live that the agent asks for, and the
control server grants another one when that is out of its range. `heartbeat_period_iff` says for
which flags the period is positive and below the lease that is granted.
-/

namespace MutualCloud.Agent

open Go Control

/-! ## The wait for the manifest -/

/-- One poll of `WaitForManifest`: how long it takes, at most the timeout of the client, and the
manifest in a reply with status 200, if there is one. -/
structure Poll where
  took : Duration
  manifest : Option TaskManifest
  nonneg : 0 ≤ took
  bounded : took ≤ 3 * second

/-- The manifest that ends the wait. -/
def Poll.ready (p : Poll) : Option TaskManifest :=
  p.manifest.filter fun m => m.rootCID ≠ "" ∧ m.providers ≠ []

/-- The pause between two polls. -/
def pollPause : Duration := 500000000

/-- The loop of `WaitForManifest` from its `n`-th poll, which starts at `now`, and the time at which
it returns. -/
def waitLoop (polls : ℕ → Poll) (deadline : Time) (n : ℕ) (now : Time) :
    Except String TaskManifest × Time :=
  match (polls n).ready with
  | some m => (.ok m, now + (polls n).took)
  | none =>
      if _h : now + (polls n).took > deadline then
        (.error "manifest not ready", now + (polls n).took)
      else waitLoop polls deadline (n + 1) (now + (polls n).took + pollPause)
termination_by (deadline + 1 - now).toNat
decreasing_by
  have hpause : 0 < pollPause := by decide
  have htook := (polls n).nonneg
  refine (Int.toNat_lt_toNat ?_).mpr ?_ <;> linarith

/-- `WaitForManifest`. It returns at once when there is no request to be made of its URL. -/
def waitForManifest (requestError : Option String) (polls : ℕ → Poll) (maxWait : Duration)
    (now : Time) : Except String TaskManifest × Time :=
  match requestError with
  | some e => (.error e, now)
  | none => waitLoop polls (now + maxWait) 0 now

/-- The time at which a poll starts, when the first starts at zero. -/
def pollStart (polls : ℕ → Poll) : ℕ → Time
  | 0 => 0
  | n + 1 => pollStart polls n + (polls n).took + pollPause

/-- The time at which a poll ends. -/
def pollEnd (polls : ℕ → Poll) (n : ℕ) : Time := pollStart polls n + (polls n).took

/-- The poll after which the wait is over: the first that finds a manifest or ends after the
deadline. -/
structure LastPoll (polls : ℕ → Poll) (deadline : Time) (n : ℕ) : Prop where
  waits : ∀ i < n, (polls i).ready = none ∧ pollEnd polls i ≤ deadline
  stops : (polls n).ready ≠ none ∨ deadline < pollEnd polls n

/-- The wait ends with its last poll. -/
theorem wait_loop_ended (polls : ℕ → Poll) (deadline : Time) (n : ℕ) (now : Time)
    (hnow : now = pollStart polls n)
    (hwaits : ∀ i < n, (polls i).ready = none ∧ pollEnd polls i ≤ deadline) :
    ∃ last, LastPoll polls deadline last ∧
      (waitLoop polls deadline n now).2 = pollEnd polls last := by
  induction n, now using waitLoop.induct polls deadline with
  | case1 n now m hready =>
      refine ⟨n, ⟨hwaits, .inl (by rw [hready]; simp)⟩, ?_⟩
      rw [waitLoop, hready, hnow]
      rfl
  | case2 n now hready hlate =>
      have hend : now + (polls n).took = pollEnd polls n := by rw [hnow, pollEnd]
      refine ⟨n, ⟨hwaits, .inr (by rw [← hend]; exact hlate)⟩, ?_⟩
      rw [waitLoop, hready, ← hend]
      simp [hlate]
  | case3 n now hready hearly ih =>
      have hend : now + (polls n).took = pollEnd polls n := by rw [hnow, pollEnd]
      have hnext : ∀ i < n + 1, (polls i).ready = none ∧ pollEnd polls i ≤ deadline := by
        intro i hi
        rcases Nat.lt_succ_iff_lt_or_eq.mp hi with hi | rfl
        · exact hwaits i hi
        · exact ⟨hready, by linarith⟩
      obtain ⟨last, hlast, htime⟩ := ih (by rw [hnow, pollStart]) hnext
      refine ⟨last, hlast, ?_⟩
      rw [waitLoop, hready, ← htime]
      simp [hearly]

/-- There is one last poll. -/
theorem LastPoll.unique {polls : ℕ → Poll} {deadline : Time} {m n : ℕ}
    (hm : LastPoll polls deadline m) (hn : LastPoll polls deadline n) : m = n := by
  have hle : ∀ {a b : ℕ}, LastPoll polls deadline a → LastPoll polls deadline b → b ≤ a := by
    intro a b ha hb
    by_contra hlt
    obtain ⟨hready, hend⟩ := hb.waits a (by omega)
    rcases ha.stops with hstop | hstop
    · exact hstop hready
    · linarith
  exact Nat.le_antisymm (hle hn hm) (hle hm hn)

/-- The longest wait: the last poll starts half a second after the deadline and takes three. -/
def longestWait : Duration := 18500000000

/-- No wait is longer. -/
theorem LastPoll.bounded {polls : ℕ → Poll} {n : ℕ} (h : LastPoll polls (15 * second) n) :
    pollEnd polls n ≤ longestWait := by
  have htook := (polls n).bounded
  have hsecond : second = 1000000000 := rfl
  have hpause : pollPause = 500000000 := rfl
  have hlongest : longestWait = 18500000000 := rfl
  cases n with
  | zero =>
      show 0 + (polls 0).took ≤ longestWait
      linarith
  | succ n =>
      have hbefore := (h.waits n (by omega)).2
      show pollEnd polls n + pollPause + (polls (n + 1)).took ≤ longestWait
      linarith

/-! ## The ticker -/

/-- `time.Duration(sec) * time.Second`, on 64 bits. -/
def durationOf (sec : Int) : Duration := Int.bmod (sec * second) (2 ^ 64)

/-- The correction of the flags in `main`. -/
def correctInterval (leaseTTL hbEvery : Duration) : Duration :=
  if hbEvery ≥ leaseTTL then
    if leaseTTL > second then leaseTTL - second else leaseTTL.tdiv 2
  else hbEvery

/-- The period of the ticker. -/
def hbInterval (ttlSec hbSec : Int) : Duration :=
  correctInterval (durationOf ttlSec) (durationOf hbSec)

/-- The expiry of the lease that the control server grants at time zero. -/
def leaseExpiry (ttlSec : Int) : Time :=
  0 + seconds (ttlOrDefault (seconds (durationOf ttlSec))) * second

/-- The time at which the agent sends its first heartbeat, if it sends one: the ticker starts when
the wait is over, and the job context is cancelled after `runs` more. `time.NewTicker` panics when
its period is not positive. -/
def firstHeartbeat (ttlSec hbSec : Int) (requestError : Option String) (polls : ℕ → Poll)
    (runs : Duration) : Option Time :=
  let started := (waitForManifest requestError polls (15 * second) 0).2
  let hbEvery := hbInterval ttlSec hbSec
  if hbEvery ≤ 0 then none
  else if hbEvery ≤ runs then some (started + hbEvery)
  else none

/-- The flags of the time to live are read as they are. -/
theorem duration_of_ttl {ttlSec : Int} (hmin : 1 ≤ ttlSec) (hmax : ttlSec ≤ 3600) :
    durationOf ttlSec = ttlSec * second := by
  have hsecond : second = 1000000000 := rfl
  unfold durationOf
  rw [hsecond, Int.bmod_eq_of_le]
  · omega
  · omega

/-- The server grants what the agent asks for. -/
theorem lease_expiry_eq {ttlSec : Int} (hmin : 1 ≤ ttlSec) (hmax : ttlSec ≤ 3600) :
    leaseExpiry ttlSec = ttlSec * second := by
  have hseconds : ∀ sec : Int, seconds (sec * second) = sec := by
    intro sec
    unfold seconds
    exact Int.mul_tdiv_cancel _ (by decide)
  have hkept : ¬ (ttlSec ≤ 0 ∨ ttlSec > 3600) := by omega
  rw [leaseExpiry, duration_of_ttl hmin hmax, hseconds, ttlOrDefault, if_neg hkept, hseconds]
  exact zero_add _

/-- The correction gives a period below the time to live, but not so far below it that the longest
wait would fit. -/
theorem hb_interval_cases {ttlSec : Int} (hmin : 1 ≤ ttlSec) (hmax : ttlSec ≤ 3600) (hbSec : Int) :
    (durationOf hbSec < ttlSec * second ∧ hbInterval ttlSec hbSec = durationOf hbSec) ∨
    (ttlSec * second ≤ durationOf hbSec ∧ 0 < hbInterval ttlSec hbSec ∧
      ttlSec * second ≤ longestWait + hbInterval ttlSec hbSec) := by
  have hsecond : second = 1000000000 := rfl
  have hlongest : longestWait = 18500000000 := rfl
  have hinterval : hbInterval ttlSec hbSec =
      correctInterval (ttlSec * second) (durationOf hbSec) := by
    rw [hbInterval, duration_of_ttl hmin hmax]
  rw [hinterval, correctInterval]
  by_cases hlong : durationOf hbSec ≥ ttlSec * second
  · rw [if_pos hlong]
    refine .inr ⟨hlong, ?_⟩
    by_cases hone : ttlSec * second > second
    · rw [if_pos hone]
      constructor <;> linarith
    · have hsec : ttlSec = 1 := by
        rw [hsecond] at hone
        omega
      rw [if_neg hone, hsec]
      decide
  · rw [if_neg hlong]
    exact .inl ⟨by linarith, rfl⟩

/-! ## The first tick and the expiry -/

/-- The polls end in their order, from time zero on. -/
theorem poll_end_nonneg (polls : ℕ → Poll) (n : ℕ) : 0 ≤ pollEnd polls n := by
  have hstart : ∀ n, 0 ≤ pollStart polls n := by
    intro n
    induction n with
    | zero => exact le_rfl
    | succ n ih =>
        have htook := (polls n).nonneg
        have hpause : 0 < pollPause := by decide
        show 0 ≤ pollStart polls n + (polls n).took + pollPause
        linarith
  have htook := (polls n).nonneg
  have hn := hstart n
  show 0 ≤ pollStart polls n + (polls n).took
  linarith

/-- `WaitForManifest` returns when its last poll ends. -/
theorem wait_for_manifest_ended (polls : ℕ → Poll) :
    ∃ last, LastPoll polls (15 * second) last ∧
      (waitForManifest none polls (15 * second) 0).2 = pollEnd polls last := by
  rw [waitForManifest, zero_add]
  exact wait_loop_ended polls (15 * second) 0 0 rfl fun i hi => absurd hi (Nat.not_lt_zero i)

/-- The first heartbeat comes before the expiry of the lease. -/
def InTime (ttlSec hbSec : Int) (polls : ℕ → Poll) : Prop :=
  ∀ requestError runs t, firstHeartbeat ttlSec hbSec requestError polls runs = some t →
    t < leaseExpiry ttlSec

/-- The first heartbeat comes in time exactly when the end of the last poll leaves a period of the
ticker before the expiry. -/
theorem in_time_iff {ttlSec : Int} (hmin : 1 ≤ ttlSec) (hmax : ttlSec ≤ 3600) (hbSec : Int)
    (polls : ℕ → Poll) :
    InTime ttlSec hbSec polls ↔ hbInterval ttlSec hbSec ≤ 0 ∨
      ∀ n, LastPoll polls (15 * second) n →
        pollEnd polls n + hbInterval ttlSec hbSec < ttlSec * second := by
  obtain ⟨last, hlast, hwait⟩ := wait_for_manifest_ended polls
  unfold InTime
  rw [lease_expiry_eq hmin hmax]
  constructor
  · intro h
    by_cases hpos : hbInterval ttlSec hbSec ≤ 0
    · exact .inl hpos
    · right
      intro n hn
      refine h none (hbInterval ttlSec hbSec) _ ?_
      rw [firstHeartbeat, hwait, hlast.unique hn, if_neg hpos, if_pos le_rfl]
  · intro h requestError runs t ht
    unfold firstHeartbeat at ht
    dsimp only at ht
    split at ht
    · cases ht
    next hpos =>
        have hend := h.resolve_left hpos last hlast
        have hnonneg := poll_end_nonneg polls last
        split at ht
        · cases ht
          cases requestError with
          | none =>
              rw [hwait]
              exact hend
          | some e =>
              show 0 + hbInterval ttlSec hbSec < ttlSec * second
              linarith
        · cases ht

/-- Polls that find the placeholder that `announceOnce` puts. The fifth of them ends at the
deadline, and the last takes as long as the client lets it. -/
def slowPolls (n : ℕ) : Poll where
  took := if n = 4 then second else 3 * second
  manifest := some (placeholder 0)
  nonneg := by split <;> decide
  bounded := by split <;> decide

/-- The longest wait happens. -/
theorem slow_polls_last :
    LastPoll slowPolls (15 * second) 5 ∧ pollEnd slowPolls 5 = longestWait := by
  refine ⟨⟨?_, .inr (by decide)⟩, by decide⟩
  intro i hi
  refine ⟨rfl, ?_⟩
  interval_cases i <;> decide

/-- The first heartbeat comes before the expiry of the lease exactly when a period of the ticker is
left after the last poll, and it does so for every sequence of replies exactly when the flag of the
heartbeat leaves room for the longest wait. -/
theorem first_heartbeat_iff {ttlSec : Int} (hmin : 1 ≤ ttlSec) (hmax : ttlSec ≤ 3600)
    (hbSec : Int) :
    (∀ polls, InTime ttlSec hbSec polls ↔ hbInterval ttlSec hbSec ≤ 0 ∨
      ∀ n, LastPoll polls (15 * second) n →
        pollEnd polls n + hbInterval ttlSec hbSec < ttlSec * second) ∧
    ((∀ polls, InTime ttlSec hbSec polls) ↔
      durationOf hbSec ≤ 0 ∨ longestWait + durationOf hbSec < ttlSec * second) := by
  refine ⟨in_time_iff hmin hmax hbSec, ?_⟩
  have hcases := hb_interval_cases hmin hmax hbSec
  have hlongest : 0 < longestWait := by decide
  constructor
  · intro h
    obtain ⟨hlast, hend⟩ := slow_polls_last
    have hslow := (in_time_iff hmin hmax hbSec slowPolls).mp (h slowPolls)
    rcases hcases with ⟨-, hsame⟩ | ⟨-, hpos, hlate⟩
    · rw [hsame] at hslow
      refine hslow.imp_right fun hall => ?_
      rw [← hend]
      exact hall 5 hlast
    · rcases hslow with hnone | hall
      · linarith
      · have hearly := hall 5 hlast
        rw [hend] at hearly
        linarith
  · intro h polls
    rw [in_time_iff hmin hmax]
    rcases hcases with ⟨-, hsame⟩ | ⟨hlong, -, -⟩
    · rw [hsame]
      refine h.imp_right fun hroom n hn => ?_
      have hbounded := hn.bounded
      linarith
    · have hsecond : second = 1000000000 := rfl
      have hpos : 0 < ttlSec * second := by
        rw [hsecond]
        omega
      rcases h with hnone | hroom
      · linarith
      · linarith

/-- A minute of lease leaves room for a heartbeat every five seconds. -/
theorem first_heartbeat_iff_minute :
    longestWait + durationOf 5 < 60 * second ∧ InTime 60 5 slowPolls :=
  ⟨by decide, (first_heartbeat_iff (by decide) (by decide) 5).2.mpr (.inr (by decide)) slowPolls⟩

/-- With the recommended flags, the first heartbeat of a job without inputs comes when its lease has
long expired. -/
theorem first_heartbeat_late :
    firstHeartbeat 15 5 none slowPolls (60 * second) = some 23500000000 ∧
      leaseExpiry 15 = 15000000000 := by
  obtain ⟨last, hlast, hwait⟩ := wait_for_manifest_ended slowPolls
  obtain ⟨hfive, hend⟩ := slow_polls_last
  rw [firstHeartbeat, hwait, hlast.unique hfive, hend]
  decide

/-! ## The period and the lease -/

/-- The time to live that `tryClaimHandler` and `heartbeatHandler` apply for an agent's flag.
`Seconds` is a float, which rounds a fraction up only from `2 ^ 23` seconds on, where the handlers
take their default anyway. -/
def grantedTTL (ttlSec : Int) : Duration := ttlOrDefault (seconds (durationOf ttlSec))

/-- The flags whose period fits the lease that is granted. Both count as nanoseconds on 64 bits. A
time to live below an hour and a second is granted without its fraction of a second, and a longer
one or one below a second becomes 15 seconds. -/
def PeriodFits (ttlSec hbSec : Int) : Prop :=
  let ttl := Int.bmod (ttlSec * 1000000000) (2 ^ 64)
  let hb := Int.bmod (hbSec * 1000000000) (2 ^ 64)
  0 < hb ∧ 2 ≤ ttl ∧
    if ttl < 3601000000000 then ttl ≤ hb ∨ ttl < 1000000000 ∨ hb < ttl - ttl % 1000000000
    else hb < 15000000000

/-- A quotient that is rounded towards zero. -/
theorem tdiv_cases (a : Int) {b : Int} (hb : 0 < b) :
    (0 ≤ a ∧ a.tdiv b = a / b) ∨ (a < 0 ∧ a.tdiv b ≤ 0) := by
  rcases lt_or_ge a 0 with hneg | hpos
  · have hopposite : (-a).tdiv b = -a / b := Int.tdiv_eq_ediv_of_nonneg (by omega)
    have hnonneg : 0 ≤ -a / b := Int.ediv_nonneg (by omega) (by omega)
    rw [Int.neg_tdiv] at hopposite
    exact .inr ⟨hneg, by omega⟩
  · exact .inl ⟨hpos, Int.tdiv_eq_ediv_of_nonneg hpos⟩

/-- What is granted for a time to live. -/
theorem granted_cases {ttl granted : Int} (h : ttlOrDefault (seconds ttl) = granted) :
    (1000000000 ≤ ttl ∧ ttl < 3601000000000 ∧ granted = ttl - ttl % 1000000000) ∨
    ((ttl < 1000000000 ∨ 3601000000000 ≤ ttl) ∧ granted = 15000000000) := by
  have hcases := tdiv_cases ttl (show (0 : Int) < 1000000000 by decide)
  have hgranted : (if ttl.tdiv 1000000000 ≤ 0 ∨ ttl.tdiv 1000000000 > 3600 then 15000000000
      else ttl.tdiv 1000000000 * 1000000000) = granted := h
  split at hgranted <;> omega

/-- The period of the ticker. For all values of the two flags, the period that is handed to
`time.NewTicker` is positive and below the time to live that the control server applies if and only
if the flags fit. -/
theorem heartbeat_period_iff (ttlSec hbSec : Int) :
    (0 < hbInterval ttlSec hbSec ∧ hbInterval ttlSec hbSec < grantedTTL ttlSec) ↔
      PeriodFits ttlSec hbSec := by
  obtain ⟨ttl, httl⟩ : ∃ ttl : Int, Int.bmod (ttlSec * 1000000000) (2 ^ 64) = ttl := ⟨_, rfl⟩
  obtain ⟨hb, hhb⟩ : ∃ hb : Int, Int.bmod (hbSec * 1000000000) (2 ^ 64) = hb := ⟨_, rfl⟩
  obtain ⟨granted, hgranted⟩ : ∃ granted : Int, grantedTTL ttlSec = granted := ⟨_, rfl⟩
  obtain ⟨period, hperiod⟩ : ∃ period : Int, hbInterval ttlSec hbSec = period := ⟨_, rfl⟩
  have hcorrected : (if hb ≥ ttl then if ttl > 1000000000 then ttl - 1000000000 else ttl.tdiv 2
      else hb) = period := by
    rw [← hperiod, ← httl, ← hhb]
    rfl
  have happlied : ttlOrDefault (seconds ttl) = granted := by
    rw [← hgranted, ← httl]
    rfl
  have hcases := granted_cases happlied
  have hhalf := tdiv_cases ttl (show (0 : Int) < 2 by decide)
  rw [hperiod, hgranted]
  unfold PeriodFits
  rw [httl, hhb]
  show 0 < period ∧ period < granted ↔ _
  dsimp only
  split_ifs at hcorrected ⊢ <;> omega

/-- As long as the flags do not overflow: both are positive, and the time to live is at most an hour
or the heartbeats come more often than every 15 seconds. -/
theorem period_fits_iff {ttlSec hbSec : Int} (httl : |ttlSec| < 2 ^ 33) (hhb : |hbSec| < 2 ^ 33) :
    PeriodFits ttlSec hbSec ↔ 1 ≤ ttlSec ∧ 1 ≤ hbSec ∧ (ttlSec ≤ 3600 ∨ hbSec < 15) := by
  rw [abs_lt] at httl hhb
  unfold PeriodFits
  rw [Int.bmod_eq_of_le (by omega) (by omega), Int.bmod_eq_of_le (by omega) (by omega)]
  dsimp only
  split <;> omega

/-- A lease of two hours with a heartbeat every minute is one of 15 seconds, and without a lease
there is no period at all. -/
theorem heartbeat_period_unfit :
    ¬ (0 < hbInterval 7200 60 ∧ hbInterval 7200 60 < grantedTTL 7200) ∧
      hbInterval 7200 60 = 60 * second ∧ grantedTTL 7200 = 15 * second ∧
      ¬ 0 < hbInterval 0 5 := by
  decide

end MutualCloud.Agent
