import MutualCloud.Agent.Fetch

/-!
# The files that a root CID names

A root CID arrives from the network: a seeder joins it to its directory and opens what it gets, and
the agent joins it to the directory of the inputs and creates files there. Both only check that it
is not empty. `root_cid_confined_iff` says which root CIDs stay inside, on both sides.
-/

namespace MutualCloud.Agent

open Go

/-- The path that `SourceFS.Open` opens. -/
def Seeder.path (s : Seeder) (rootCID : String) : Path := join s.base rootCID

/-- The paths that `FetchFromProvider` creates: the file while it arrives, the file, and the link
to it. -/
def createdPaths (rootCID dir : String) : List Path :=
  [join dir (rootCID ++ ".part"), join dir rootCID, join dir "input"]

/-- The link changes nothing but what is under its name. -/
theorem link_input_frame {dir : String} {path : Path} (h : ¬ path.Inside (join dir "input"))
    (final : Path) (inputCopy : Option ℕ) (fs : Files) :
    linkInput dir final inputCopy fs path = fs path := by
  have hcleared : fs.removeAll (join dir "input") path = fs path := if_neg h
  have hne : path ≠ join dir "input" := by
    intro heq
    exact h (heq ▸ path.inside_self)
  unfold linkInput
  cases inputCopy with
  | none => exact hcleared
  | some n =>
      cases fs.removeAll (join dir "input") final with
      | none => exact hcleared
      | some content => exact (Function.update_of_ne hne _ _).trans hcleared

/-- `FetchFromProvider` changes nothing but the paths that it creates and what is under the name of
the link. -/
theorem fetch_frame {rootCID dir : String} {path : Path} (hpath : path ∉ createdPaths rootCID dir)
    (hinput : ¬ path.Inside (join dir "input")) (a : Attempt) (fs : Files) :
    (fetchFromProvider rootCID dir a fs).2 path = fs path := by
  simp only [createdPaths, List.mem_cons, not_or] at hpath
  obtain ⟨hpart, hfinal, -⟩ := hpath
  have hwrite : ∀ content, fs.write (join dir (rootCID ++ ".part")) content path = fs path := by
    intro content
    exact Function.update_of_ne hpart _ _
  have hrename : ∀ content, ((fs.write (join dir (rootCID ++ ".part")) content).rename
      (join dir (rootCID ++ ".part")) (join dir rootCID)) path = fs path := by
    intro content
    rw [Files.rename, Function.update_of_ne hfinal, Function.update_of_ne hpart, hwrite]
  unfold fetchFromProvider
  split
  · rfl
  · split
    · rfl
    · dsimp only
      split
      · exact hwrite _
      · split
        · exact hwrite _
        · dsimp only
          split
          · rw [link_input_frame hinput, hrename]
          · exact hrename _

/-- A name that is one component, and not `..`, stays in every directory. -/
theorem stays_of_component {name : String} (hslash : '/' ∉ name.toList) (hup : name ≠ "..")
    (dir : String) : Stays dir name := by
  have hrelative : ∀ part ∈ relative name, part = name := by
    unfold relative
    rw [split_eq_singleton hslash]
    intro part hpart
    by_cases hskip : name = "" ∨ name = "."
    · simp [cleanParts, hskip] at hpart
    · simpa [cleanParts, hskip, hup] using hpart
  have hups : ups name = 0 := by
    unfold ups
    rw [List.length_eq_zero_iff, List.takeWhile_eq_nil_iff]
    intro hlen heq
    have hfirst := hrelative _ (List.getElem_mem hlen)
    exact hup (hfirst.symm.trans (by simpa using heq))
  refine ⟨fun _ hhead => hslash (List.mem_of_mem_head? hhead), .inr ?_, ?_⟩
  · omega
  · rw [hups]
    simp [List.rtake]

/-- The file that a seeder opens lies in its directory, and the files that the agent creates lie in
the directory of the inputs, exactly when the root CID comes back to the one directory and, with and
without the ending of the unfinished file, to the other. -/
theorem root_cid_confined_iff (s : Seeder) (rootCID dir : String) :
    ((s.path rootCID).Within (clean s.base) ∧
      ∀ path ∈ createdPaths rootCID dir, path.Within (clean dir)) ↔
    Stays s.base rootCID ∧ Stays dir (rootCID ++ ".part") ∧ Stays dir rootCID := by
  have hinput : Stays dir "input" := stays_of_component (by decide) (by decide) dir
  rw [← join_within_iff, ← join_within_iff, ← join_within_iff]
  rw [← join_within_iff] at hinput
  constructor
  · intro ⟨hopen, hcreated⟩
    exact ⟨hopen, hcreated _ (by simp [createdPaths]), hcreated _ (by simp [createdPaths])⟩
  · intro ⟨hopen, hpart, hfinal⟩
    refine ⟨hopen, fun path hpath => ?_⟩
    simp only [createdPaths, List.mem_cons, List.not_mem_nil, or_false] at hpath
    rcases hpath with rfl | rfl | rfl
    · exact hpart
    · exact hfinal
    · exact hinput

/-- A root CID with `..` opens a file beside the directory of the seeder, and creates files beside
that of the agent. -/
theorem root_cid_escapes :
    Sample.fullSeeder.path "../secret" = ⟨false, ["secret"]⟩ ∧
    ¬ (Sample.fullSeeder.path "../secret").Within (clean Sample.fullSeeder.base) ∧
    createdPaths "../secret" "work" =
      [⟨false, ["secret.part"]⟩, ⟨false, ["secret"]⟩, ⟨false, ["work", "input"]⟩] ∧
    ¬ (join "work" "../secret").Within (clean "work") ∧
    ¬ (join "work" ("../secret" ++ ".part")).Within (clean "work") := by
  rw [join_within_iff, join_within_iff, Seeder.path, join_within_iff]
  decide

end MutualCloud.Agent
