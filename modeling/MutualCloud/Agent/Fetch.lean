import MutualCloud.Control.Directory
import MutualCloud.Go.Paths
import Mathlib.Logic.Function.Basic

/-!
# The transfer of the inputs of a job

`FetchFromProvider` and `FetchAny` of `pkg/agent/fetch.go` against `MountSeedHandler` and
`SourceFS` of `pkg/seeder/seed_handler.go`. A stream delivers the bytes that the seeder wrote and
then ends; whether the seeder wrote all of the file, a part of it or nothing, the receiver cannot
tell. `fetch_complete_iff` says what the first provider that is reached has to hold, and how its
`os.Open` and its reads have to end, for the file that `FetchAny` leaves to be the right one.
-/

namespace MutualCloud.Agent

open Go
open Control (Provider)

/-- The contents of a file. -/
abbrev Bytes := List UInt8

/-- The regular files of a machine. -/
abbrev Files := Path → Option Bytes

namespace Files

/-- Create or overwrite a file. -/
def write (fs : Files) (path : Path) (content : Bytes) : Files :=
  Function.update fs path (some content)

/-- `os.Rename`. -/
def rename (fs : Files) (old new : Path) : Files :=
  Function.update (Function.update fs old none) new (fs old)

/-- `os.RemoveAll`. -/
def removeAll (fs : Files) (dir : Path) : Files :=
  fun path => if path.Inside dir then none else fs path

end Files

/-! ## The seeder -/

/-- The machine of a provider: its files, the directory of its `SourceFS`, and how `os.Open` and
the reads of the opened file end. -/
structure Seeder where
  files : Files
  base : String
  /-- `os.Open` fails, although the file may be there. -/
  openError : Bool
  /-- The reads of the file fail after this number of bytes. -/
  readError : Option ℕ

namespace Seeder

/-- The file that the seeder holds under a root CID. -/
def held (s : Seeder) (rootCID : String) : Option Bytes := s.files (join s.base rootCID)

/-- `SourceFS.Open`. -/
def openSource (s : Seeder) (rootCID : String) : Option Bytes :=
  if s.openError then none else s.held rootCID

end Seeder

/-- The size of the buffer of a `bufio.Writer`. -/
def bufferSize : ℕ := 4096

/-- What `io.Copy` to a buffered writer has put on the stream in the end: after an error of a read
the buffer is not flushed. -/
def copied (readError : Option ℕ) (content : Bytes) : Bytes :=
  match readError with
  | none => content
  | some n => if n ≤ content.length then content.take (n / bufferSize * bufferSize) else content

/-- The handler of `MountSeedHandler`: the bytes that it writes before it closes the stream. -/
def seedHandler (s : Seeder) (rootCID : String) : Bytes :=
  if rootCID = "" then []
  else match s.openSource rootCID with
    | none => []
    | some content => copied s.readError content

/-! ## The receiver -/

/-- A provider of the list and what the receiver meets when it tries that provider. -/
structure Attempt where
  provider : Provider
  seeder : Seeder
  /-- The error of a step before the copy: an address, the connection, the stream, the request or
  the creation of the file. -/
  setupError : Option String
  /-- The error of the copy, and how many bytes it had written. -/
  copyError : Option (String × ℕ)
  /-- The error of `os.Rename`. -/
  renameError : Option String
  /-- When the symlink fails and the copy in its place can be created, the number of bytes that
  get copied. -/
  inputCopy : Option ℕ

/-- `FetchResult`. -/
structure FetchResult where
  localPath : Path
  bytes : ℕ

/-- The link or copy that `FetchFromProvider` leaves under the name `input`. -/
def linkInput (dir : String) (final : Path) (inputCopy : Option ℕ) (fs : Files) : Files :=
  let inPath := join dir "input"
  let fs := fs.removeAll inPath
  match inputCopy, fs final with
  | some n, some content => fs.write inPath (content.take n)
  | _, _ => fs

/-- `FetchFromProvider`. -/
def fetchFromProvider (rootCID dir : String) (a : Attempt) (fs : Files) :
    Except String FetchResult × Files :=
  if a.provider.peerID = "" ∨ a.provider.addrs = [] then (.error "invalid provider", fs)
  else match a.setupError with
    | some e => (.error e, fs)
    | none =>
        let tmp := join dir (rootCID ++ ".part")
        let body := seedHandler a.seeder rootCID
        match a.copyError with
        | some (e, n) => (.error ("recv: " ++ e), fs.write tmp (body.take n))
        | none =>
            let fs := fs.write tmp body
            match a.renameError with
            | some e => (.error e, fs)
            | none =>
                let final := join dir rootCID
                let fs := fs.rename tmp final
                let fs := if rootCID ≠ "input" then linkInput dir final a.inputCopy fs else fs
                (.ok ⟨final, body.length⟩, fs)

/-- `FetchAny`, after the error `lastErr`. -/
def fetchAny (rootCID dir : String) :
    List Attempt → Option String → Files → Except String FetchResult × Files
  | [], lastErr, fs => (.error (lastErr.getD "no providers"), fs)
  | a :: rest, _, fs =>
      match fetchFromProvider rootCID dir a fs with
      | (.ok r, fs) => (.ok r, fs)
      | (.error e, fs) => fetchAny rootCID dir rest (some e) fs

/-! ## What an attempt comes to -/

/-- The receiver meets no error of its own. -/
def Attempt.Reached (a : Attempt) : Prop :=
  ¬ (a.provider.peerID = "" ∨ a.provider.addrs = []) ∧ a.setupError = none ∧
    a.copyError = none ∧ a.renameError = none

/-- The provider holds the file and sends all of it. -/
def Attempt.Serves (a : Attempt) (rootCID : String) : Prop :=
  a.Reached ∧ rootCID ≠ "" ∧ a.seeder.openError = false ∧
    ∃ content, a.seeder.held rootCID = some content ∧
      ∀ n ∈ a.seeder.readError, content.length < n

/-- The handler closes the stream before it writes anything: the CID is empty, or the file is not
there or does not open. -/
def Seeder.Silent (s : Seeder) (rootCID : String) : Prop :=
  rootCID = "" ∨ s.openError = true ∨ s.held rootCID = none

/-- The seeder holds `content` and opens it, and its reads fail after `n` bytes. -/
structure Seeder.BreaksOff (s : Seeder) (rootCID : String) (content : Bytes) (n : ℕ) : Prop where
  named : rootCID ≠ ""
  opens : s.openError = false
  holds : s.held rootCID = some content
  fails : s.readError = some n
  within : n ≤ content.length

/-- The file does not get removed again when the name `input` is cleared for the link to it. -/
def Survives (rootCID dir : String) : Prop :=
  rootCID = "input" ∨ ¬ (join dir rootCID).Inside (join dir "input")

instance (rootCID dir : String) : Decidable (Survives rootCID dir) :=
  inferInstanceAs (Decidable (_ ∨ _))

/-- A provider that sends all of the file sends the file that it holds. -/
theorem Attempt.Serves.sends {a : Attempt} {rootCID : String} (h : a.Serves rootCID) :
    a.seeder.held rootCID = some (seedHandler a.seeder rootCID) := by
  obtain ⟨_, hcid, hopen, content, hheld, hread⟩ := h
  have hcopied : copied a.seeder.readError content = content := by
    unfold copied
    cases hn : a.seeder.readError with
    | none => rfl
    | some n =>
        have hlt := hread n hn
        simp only [if_neg (Nat.not_le.mpr hlt)]
  simp [seedHandler, hcid, Seeder.openSource, hopen, hheld, hcopied]

/-- A silent seeder sends nothing. -/
theorem Seeder.Silent.sends {s : Seeder} {rootCID : String} (h : s.Silent rootCID) :
    seedHandler s rootCID = [] := by
  unfold seedHandler Seeder.openSource
  rcases h with hcid | hopen | hheld
  · rw [if_pos hcid]
  · simp [hopen]
  · simp [hheld]

/-- A seeder whose reads fail sends the buffers that were full before. -/
theorem Seeder.BreaksOff.sends {s : Seeder} {rootCID : String} {content : Bytes} {n : ℕ}
    (h : s.BreaksOff rootCID content n) :
    seedHandler s rootCID = content.take (n / bufferSize * bufferSize) := by
  have hopened : s.openSource rootCID = some content := by
    rw [Seeder.openSource, h.opens]
    exact h.holds
  unfold seedHandler
  rw [if_neg h.named, hopened]
  show copied s.readError content = _
  rw [h.fails]
  exact if_pos h.within

/-- A provider that is reached sends all of its file, or nothing, or breaks off. -/
theorem Attempt.Reached.cases {a : Attempt} (h : a.Reached) (rootCID : String) :
    a.Serves rootCID ∨ a.seeder.Silent rootCID ∨
      ∃ content n, a.seeder.BreaksOff rootCID content n := by
  by_cases hcid : rootCID = ""
  · exact .inr (.inl (.inl hcid))
  cases hopen : a.seeder.openError with
  | true => exact .inr (.inl (.inr (.inl hopen)))
  | false =>
      cases hheld : a.seeder.held rootCID with
      | none => exact .inr (.inl (.inr (.inr hheld)))
      | some content =>
          by_cases hread : ∃ n ∈ a.seeder.readError, n ≤ content.length
          · obtain ⟨n, hn, hle⟩ := hread
            exact .inr (.inr ⟨content, n, hcid, hopen, hheld, hn, hle⟩)
          · have hlong : ∀ n ∈ a.seeder.readError, content.length < n :=
              fun n hn => Nat.not_le.mp fun hle => hread ⟨n, hn, hle⟩
            exact .inl ⟨h, hcid, hopen, content, hheld, hlong⟩

/-- The link leaves the file alone unless the file lies under the name that is cleared for it. -/
theorem link_input_final (dir : String) (final : Path) (inputCopy : Option ℕ) (fs : Files) :
    linkInput dir final inputCopy fs final =
      if final.Inside (join dir "input") then none else fs final := by
  have hcleared : fs.removeAll (join dir "input") final =
      if final.Inside (join dir "input") then none else fs final := rfl
  unfold linkInput
  by_cases hinside : final.Inside (join dir "input")
  · rw [if_pos hinside] at hcleared ⊢
    rw [hcleared]
    cases inputCopy <;> exact hcleared
  · rw [if_neg hinside] at hcleared ⊢
    rw [hcleared]
    cases inputCopy with
    | none => exact hcleared
    | some n =>
        cases hfinal : fs final with
        | none => exact hcleared.trans hfinal
        | some content =>
            -- the copy goes to another path
            have hne : final ≠ join dir "input" := by
              intro heq
              exact hinside (heq ▸ final.inside_self)
            show Function.update (fs.removeAll (join dir "input")) _ _ final = _
            rw [Function.update_of_ne hne, hcleared, hfinal]

/-- An attempt without an error of the receiver succeeds, with the bytes that the seeder sent. -/
theorem fetch_reached {a : Attempt} (h : a.Reached) (rootCID dir : String) (fs : Files) :
    ∃ fs', fetchFromProvider rootCID dir a fs =
        (.ok ⟨join dir rootCID, (seedHandler a.seeder rootCID).length⟩, fs') ∧
      fs' (join dir rootCID) =
        if Survives rootCID dir then some (seedHandler a.seeder rootCID) else none := by
  obtain ⟨hprovider, hsetup, hcopy, hrename⟩ := h
  have hfetch : fetchFromProvider rootCID dir a fs =
      let renamed := (fs.write (join dir (rootCID ++ ".part"))
        (seedHandler a.seeder rootCID)).rename (join dir (rootCID ++ ".part")) (join dir rootCID)
      (.ok ⟨join dir rootCID, (seedHandler a.seeder rootCID).length⟩,
        if rootCID ≠ "input" then linkInput dir (join dir rootCID) a.inputCopy renamed
        else renamed) := by
    unfold fetchFromProvider
    rw [if_neg hprovider, hsetup, hcopy, hrename]
  have hrenamed : ((fs.write (join dir (rootCID ++ ".part")) (seedHandler a.seeder rootCID)).rename
      (join dir (rootCID ++ ".part")) (join dir rootCID)) (join dir rootCID) =
      some (seedHandler a.seeder rootCID) := by
    unfold Files.rename Files.write
    rw [Function.update_self, Function.update_self]
  refine ⟨_, hfetch, ?_⟩
  by_cases hinput : rootCID = "input"
  · have hsurvives : Survives rootCID dir := .inl hinput
    rw [if_neg (not_not.mpr hinput), if_pos hsurvives, hrenamed]
  · rw [if_pos hinput, link_input_final, hrenamed]
    by_cases hinside : (join dir rootCID).Inside (join dir "input")
    · have hlost : ¬ Survives rootCID dir := by
        rintro (h | h)
        · exact hinput h
        · exact h hinside
      rw [if_pos hinside, if_neg hlost]
    · have hsurvives : Survives rootCID dir := .inr hinside
      rw [if_neg hinside, if_pos hsurvives]

/-- An attempt with an error of the receiver fails. -/
theorem fetch_unreached {a : Attempt} (h : ¬ a.Reached) (rootCID dir : String) (fs : Files) :
    ∃ e fs', fetchFromProvider rootCID dir a fs = (.error e, fs') := by
  unfold fetchFromProvider
  split
  · exact ⟨_, _, rfl⟩
  · next hprovider =>
      cases hsetup : a.setupError with
      | some e => exact ⟨_, _, rfl⟩
      | none =>
          cases hcopy : a.copyError with
          | some e => exact ⟨_, _, rfl⟩
          | none =>
              cases hrename : a.renameError with
              | some e => exact ⟨_, _, rfl⟩
              | none => exact absurd ⟨hprovider, hsetup, hcopy, hrename⟩ h

/-- `FetchAny` succeeds with the first attempt that meets no error of the receiver. -/
theorem fetch_any_first {before after : List Attempt} {a : Attempt}
    (hbefore : ∀ x ∈ before, ¬ x.Reached) (h : a.Reached) (rootCID dir : String)
    (lastErr : Option String) (fs : Files) :
    ∃ fs', fetchAny rootCID dir (before ++ a :: after) lastErr fs =
        (.ok ⟨join dir rootCID, (seedHandler a.seeder rootCID).length⟩, fs') ∧
      fs' (join dir rootCID) =
        if Survives rootCID dir then some (seedHandler a.seeder rootCID) else none := by
  induction before generalizing lastErr fs with
  | nil =>
      obtain ⟨fs', hfetch, hfile⟩ := fetch_reached h rootCID dir fs
      refine ⟨fs', ?_, hfile⟩
      rw [List.nil_append, fetchAny, hfetch]
  | cons x before ih =>
      obtain ⟨e, fs', hfetch⟩ := fetch_unreached (hbefore x (by simp)) rootCID dir fs
      rw [List.cons_append, fetchAny, hfetch]
      exact ih (fun y hy => hbefore y (by simp [hy])) (some e) fs'

/-- `FetchAny` fails when every attempt meets an error of the receiver. -/
theorem fetch_any_none {attempts : List Attempt} (h : ∀ x ∈ attempts, ¬ x.Reached)
    (rootCID dir : String) (lastErr : Option String) (fs : Files) :
    ∃ e fs', fetchAny rootCID dir attempts lastErr fs = (.error e, fs') := by
  induction attempts generalizing lastErr fs with
  | nil => exact ⟨_, _, rfl⟩
  | cons x rest ih =>
      obtain ⟨e, fs', hfetch⟩ := fetch_unreached (h x (by simp)) rootCID dir fs
      rw [fetchAny, hfetch]
      exact ih (fun y hy => h y (by simp [hy])) (some e) fs'

/-- The attempts before the first that meets no error of the receiver. -/
theorem first_reached (attempts : List Attempt) :
    (∀ x ∈ attempts, ¬ x.Reached) ∨
      ∃ before a after, attempts = before ++ a :: after ∧ (∀ x ∈ before, ¬ x.Reached) ∧
        a.Reached := by
  induction attempts with
  | nil => exact .inl (List.forall_mem_nil _)
  | cons x rest ih =>
      by_cases hx : x.Reached
      · exact .inr ⟨[], x, rest, rfl, List.forall_mem_nil _, hx⟩
      · rcases ih with hnone | ⟨before, a, after, rfl, hbefore, ha⟩
        · exact .inl (List.forall_mem_cons.mpr ⟨hx, hnone⟩)
        · exact .inr ⟨x :: before, a, after, rfl, List.forall_mem_cons.mpr ⟨hx, hbefore⟩, ha⟩

/-! ## Complete transfers -/

/-- The transfer is complete or fails over: what `FetchAny` leaves after a success is the whole
file that some provider holds, and that of the first provider that sends its file, if there is
one. -/
def Complete (rootCID dir : String) (attempts : List Attempt) (fs : Files) : Prop :=
  (∀ r fs', fetchAny rootCID dir attempts none fs = (.ok r, fs') →
    ∃ x ∈ attempts, ∃ content, x.seeder.held rootCID = some content ∧
      fs' r.localPath = some content) ∧
  (∀ before b after, attempts = before ++ b :: after → (∀ x ∈ before, ¬ x.Serves rootCID) →
    b.Serves rootCID → ∃ r fs', fetchAny rootCID dir attempts none fs = (.ok r, fs') ∧
      fs' r.localPath = b.seeder.held rootCID)

/-- The bytes are the whole file of some provider, and that of the first provider that sends its
file, if there is one. -/
def RightFile (rootCID : String) (attempts : List Attempt) (bytes : Bytes) : Prop :=
  (∃ x ∈ attempts, x.seeder.held rootCID = some bytes) ∧
  ∀ before b after, attempts = before ++ b :: after → (∀ x ∈ before, ¬ x.Serves rootCID) →
    b.Serves rootCID → b.seeder.held rootCID = some bytes

/-- A transfer is complete or fails over exactly if the first provider that is reached sends the
right file, and the file is not removed for the sake of the link. -/
theorem complete_iff_sent (rootCID dir : String) (attempts : List Attempt) (fs : Files) :
    Complete rootCID dir attempts fs ↔
      ∀ before a after, attempts = before ++ a :: after → (∀ x ∈ before, ¬ x.Reached) →
        a.Reached →
        Survives rootCID dir ∧ RightFile rootCID attempts (seedHandler a.seeder rootCID) := by
  constructor
  · rintro ⟨hwhole, hserved⟩ before a after rfl hbefore ha
    obtain ⟨fs', hfetch, hfile⟩ := @fetch_any_first before after a hbefore ha rootCID dir none fs
    obtain ⟨x, hx, content, hheld, hcontent⟩ := hwhole _ _ hfetch
    by_cases hsurvives : Survives rootCID dir
    · rw [if_pos hsurvives] at hfile
      refine ⟨hsurvives, ⟨x, hx, ?_⟩, ?_⟩
      · rw [hheld, ← hcontent]
        exact hfile
      · intro before' b after' hsplit hbefore' hb
        obtain ⟨r, fs'', hfetch', hb'⟩ := hserved before' b after' hsplit hbefore' hb
        obtain ⟨hr, rfl⟩ := Prod.mk.inj (hfetch.symm.trans hfetch')
        obtain rfl := Except.ok.inj hr
        rw [← hb']
        exact hfile
    · rw [if_neg hsurvives] at hfile
      exact nomatch hcontent.symm.trans hfile
  · intro hcondition
    rcases first_reached attempts with hnone | ⟨before, a, after, rfl, hbefore, ha⟩
    · obtain ⟨e, fs', hfetch⟩ := fetch_any_none hnone rootCID dir none fs
      refine ⟨?_, ?_⟩
      · intro r fs'' hok
        exact nomatch (congrArg Prod.fst hok).symm.trans (congrArg Prod.fst hfetch)
      · rintro before b after rfl _ hb
        exact absurd hb.1 (hnone b (by simp))
    · obtain ⟨hsurvives, ⟨x, hx, hheld⟩, hfirst⟩ := hcondition before a after rfl hbefore ha
      obtain ⟨fs', hfetch, hfile⟩ := @fetch_any_first before after a hbefore ha rootCID dir none fs
      rw [if_pos hsurvives] at hfile
      refine ⟨?_, ?_⟩
      · intro r fs'' hok
        obtain ⟨hr, rfl⟩ := Prod.mk.inj (hfetch.symm.trans hok)
        obtain rfl := Except.ok.inj hr
        exact ⟨x, hx, _, hheld, hfile⟩
      · intro before' b after' hsplit hbefore' hb
        exact ⟨_, fs', hfetch, hfile.trans (hfirst before' b after' hsplit hbefore' hb).symm⟩

/-- The first provider that is reached sends the right file if it sends all of its own. -/
theorem Attempt.Serves.right_file {before after : List Attempt} {a : Attempt} {rootCID : String}
    (h : a.Serves rootCID) (hbefore : ∀ x ∈ before, ¬ x.Reached) :
    RightFile rootCID (before ++ a :: after) (seedHandler a.seeder rootCID) := by
  refine ⟨⟨a, by simp, h.sends⟩, fun before' b after' hsplit hbefore' hb => ?_⟩
  -- no provider before `a` is reached, so `a` is the first that sends its file
  rcases List.append_eq_append_iff.mp hsplit with ⟨rest, hlonger, hrest⟩ | ⟨rest, hshorter, hrest⟩
  · cases rest with
    | nil =>
        obtain ⟨rfl, -⟩ := List.cons.inj hrest
        exact h.sends
    | cons x rest =>
        obtain ⟨rfl, -⟩ := List.cons.inj hrest
        exact absurd h (hbefore' a (by simp [hlonger]))
  · cases rest with
    | nil =>
        obtain ⟨rfl, -⟩ := List.cons.inj hrest
        exact h.sends
    | cons x rest =>
        obtain ⟨rfl, -⟩ := List.cons.inj hrest
        exact absurd hb.1 (hbefore b (by simp [hshorter]))

namespace Sample

/-- A seeder with an empty directory. -/
def emptySeeder : Seeder := ⟨fun _ => none, "seed", false, none⟩

/-- A seeder that holds the file. -/
def fullSeeder : Seeder :=
  ⟨fun path => if path = join "seed" "cid" then some [104, 105] else none, "seed", false, none⟩

/-- An attempt that meets no error of the receiver. -/
def attempt (seeder : Seeder) : Attempt :=
  ⟨⟨"peer", ["/ip4/127.0.0.1/tcp/4001"], [], []⟩, seeder, none, none, none, none⟩

end Sample

end MutualCloud.Agent
