import MutualCloud.Go.Strings
import Mathlib.Data.List.DropRight
import Mathlib.Logic.Function.Iterate

/-!
# `filepath.Join`

A cleaned path is a flag for the leading slash and the list of its components.
-/

namespace Go

/-- A cleaned path. -/
structure Path where
  rooted : Bool
  parts : List String
  deriving DecidableEq

/-- The components of a path without `.` and, as far as possible, without `..`. The components
kept so far are on `stack`, the last one first. -/
def cleanParts (rooted : Bool) : List String → List String → List String
  | stack, [] => stack.reverse
  | stack, part :: rest =>
      if part = "" ∨ part = "." then cleanParts rooted stack rest
      else if part = ".." then
        match stack with
        | [] => cleanParts rooted (if rooted then [] else [".."]) rest
        | top :: below =>
            if top = ".." then cleanParts rooted (".." :: stack) rest
            else cleanParts rooted below rest
      else cleanParts rooted (part :: stack) rest

/-- `filepath.Clean`. -/
def clean (path : String) : Path :=
  let rooted := path.toList.head? = some '/'
  ⟨rooted, cleanParts rooted [] (split path '/')⟩

/-- `filepath.Join(dir, name)`. -/
def join (dir name : String) : Path :=
  clean (if dir = "" then name else dir ++ "/" ++ name)

/-- The path is `dir` or lies below it. -/
def Path.Inside (path dir : Path) : Prop :=
  dir.rooted = path.rooted ∧ dir.parts <+: path.parts

instance (path dir : Path) : Decidable (path.Inside dir) :=
  inferInstanceAs (Decidable (_ ∧ _))

/-- A path lies in itself. -/
theorem Path.inside_self (path : Path) : path.Inside path :=
  ⟨rfl, List.prefix_rfl⟩

example : join "work/job/input" "x/../../cid" = ⟨false, ["work", "job", "cid"]⟩ := by decide

example : (join "work" "./input").Inside (join "work" "input") := by decide

/-! ## Names below a directory -/

/-- The path is `dir` or is reached from it without `..`. -/
def Path.Within (path dir : Path) : Prop :=
  dir.rooted = path.rooted ∧ ∃ rest, path.parts = dir.parts ++ rest ∧ ".." ∉ rest

/-- One `..` on a stack of components. -/
def climb (rooted : Bool) : List String → List String
  | [] => if rooted then [] else [".."]
  | top :: below => if top = ".." then ".." :: top :: below else below

/-- The components of a name, cleaned by themselves. -/
def relative (name : String) : List String := cleanParts false [] (split name '/')

/-- How many levels a name climbs above the directory it is joined to. -/
def ups (name : String) : ℕ := ((relative name).takeWhile (· = "..")).length

/-- The components of a name after those levels. -/
def names (name : String) : List String := (relative name).dropWhile (· = "..")

/-- The name comes back to the directory: it climbs no more levels than there are, and then names
the components again that it left. -/
def Stays (dir name : String) : Prop :=
  (dir = "" → name.toList.head? ≠ some '/') ∧
  ((clean dir).rooted = true ∨ ups name ≤ (clean dir).parts.length) ∧
  (clean dir).parts.rtake (ups name) <+: names name

instance (dir name : String) : Decidable (Stays dir name) :=
  inferInstanceAs (Decidable (_ ∧ _ ∧ _))

/-- Cleaning skips empty components and `.`. -/
theorem clean_parts_skip {part : String} (h : part = "" ∨ part = ".") (rooted : Bool)
    (stack rest : List String) :
    cleanParts rooted stack (part :: rest) = cleanParts rooted stack rest := by
  simp only [cleanParts, if_pos h]

/-- Cleaning pushes a name. -/
theorem clean_parts_name {part : String} (hskip : ¬ (part = "" ∨ part = ".")) (hup : part ≠ "..")
    (rooted : Bool) (stack rest : List String) :
    cleanParts rooted stack (part :: rest) = cleanParts rooted (part :: stack) rest := by
  simp only [cleanParts, if_neg hskip, if_neg hup]

/-- Cleaning goes on with `..` from the stack after a climb. -/
theorem clean_parts_climb (rooted : Bool) (stack rest : List String) :
    cleanParts rooted stack (".." :: rest) = cleanParts rooted (climb rooted stack) rest := by
  cases stack with
  | nil => simp [cleanParts, climb]
  | cons top below =>
      by_cases htop : top = ".." <;> simp [cleanParts, climb, htop]

/-- Cleaning a sequence is cleaning its parts one after the other. -/
theorem clean_parts_append (rooted : Bool) (stack first rest : List String) :
    cleanParts rooted stack (first ++ rest) =
      cleanParts rooted (cleanParts rooted stack first).reverse rest := by
  induction first generalizing stack with
  | nil => rw [List.nil_append, cleanParts, List.reverse_reverse]
  | cons part first ih =>
      by_cases hskip : part = "" ∨ part = "."
      · rw [List.cons_append, clean_parts_skip hskip, clean_parts_skip hskip, ih]
      · by_cases hup : part = ".."
        · rw [hup, List.cons_append, clean_parts_climb, clean_parts_climb, ih]
        · rw [List.cons_append, clean_parts_name hskip hup, clean_parts_name hskip hup, ih]

/-- What the components of a name do to any stack: they climb some levels and push some names. -/
theorem clean_parts_relative (parts : List String) (pushed : List String) (u : ℕ)
    (hpushed : ".." ∉ pushed) :
    ∃ u' rest, ".." ∉ rest ∧
      cleanParts false (pushed ++ List.replicate u "..") parts =
        List.replicate u' ".." ++ rest ∧
      ∀ rooted stack, cleanParts rooted (pushed ++ (climb rooted)^[u] stack) parts =
        ((climb rooted)^[u'] stack).reverse ++ rest := by
  induction parts generalizing pushed u with
  | nil =>
      refine ⟨u, pushed.reverse, by simpa using hpushed, ?_, fun rooted stack => ?_⟩
      · rw [cleanParts, List.reverse_append, List.reverse_replicate]
      · rw [cleanParts, List.reverse_append]
  | cons part parts ih =>
      by_cases hskip : part = "" ∨ part = "."
      · simp only [clean_parts_skip hskip]
        exact ih pushed u hpushed
      · by_cases hup : part = ".."
        · subst hup
          simp only [clean_parts_climb]
          cases pushed with
          | nil =>
              have hclimb : climb false (List.replicate u "..") = List.replicate (u + 1) ".." := by
                cases u <;> simp [climb, List.replicate_succ]
              obtain ⟨u', rest, hrest, hrel, hall⟩ := ih [] (u + 1) hpushed
              refine ⟨u', rest, hrest, ?_, fun rooted stack => ?_⟩
              · rw [List.nil_append, hclimb]
                exact hrel
              · rw [List.nil_append, ← Function.iterate_succ_apply' (climb rooted)]
                exact hall rooted stack
          | cons top below =>
              have htop : top ≠ ".." := fun h => hpushed (by simp [h])
              have hclimb : ∀ rooted below', climb rooted (top :: below') = below' := by
                intro rooted below'
                simp [climb, htop]
              simp only [List.cons_append, hclimb]
              exact ih below u fun h => hpushed (List.mem_cons_of_mem _ h)
        · simp only [clean_parts_name hskip hup]
          refine ih (part :: pushed) u fun h => ?_
          rcases List.mem_cons.mp h with h | h
          · exact hup h.symm
          · exact hpushed h

/-- The components of a name climb `ups` levels and push `names`. -/
theorem relative_eq (name : String) :
    relative name = List.replicate (ups name) ".." ++ names name ∧ ".." ∉ names name ∧
      ∀ rooted stack, cleanParts rooted stack (split name '/') =
        ((climb rooted)^[ups name] stack).reverse ++ names name := by
  obtain ⟨u, rest, hrest, hrel, hall⟩ := clean_parts_relative (split name '/') [] 0 (by simp)
  have hrelative : relative name = List.replicate u ".." ++ rest := hrel
  have hups : ups name = u := by
    unfold ups
    rw [hrelative]
    cases rest with
    | nil => simp
    | cons first rest =>
        have hfirst : first ≠ ".." := fun h => hrest (by simp [h])
        simp [hfirst]
  have hnames : names name = rest := by
    unfold names
    rw [hrelative]
    cases rest with
    | nil => simp
    | cons first rest =>
        have hfirst : first ≠ ".." := fun h => hrest (by simp [h])
        simp [hfirst]
  rw [hups, hnames]
  exact ⟨hrelative, hrest, fun rooted stack => hall rooted stack⟩

/-- Climbing removes names as long as there are some. -/
theorem climb_names (rooted : Bool) {q : List String} (hq : ".." ∉ q) (below : List String) {u : ℕ}
    (hu : u ≤ q.length) : (climb rooted)^[u] (q ++ below) = (q ++ below).drop u := by
  induction u generalizing q with
  | zero => rfl
  | succ u ih =>
      cases q with
      | nil => simp at hu
      | cons top q =>
          have htop : top ≠ ".." := fun h => hq (by simp [h])
          have hclimb : climb rooted (top :: (q ++ below)) = q ++ below := by simp [climb, htop]
          rw [List.cons_append, Function.iterate_succ_apply, hclimb, List.drop_succ_cons]
          exact ih (fun h => hq (List.mem_cons_of_mem _ h)) (by simpa using hu)

/-- Nothing is above the root: climbing removes names until there are none. -/
theorem climb_rooted {q : List String} (hq : ".." ∉ q) (u : ℕ) :
    (climb true)^[u] q = q.drop u := by
  by_cases hu : u ≤ q.length
  · have hnames := climb_names true hq [] hu
    rw [List.append_nil] at hnames
    exact hnames
  · have hroot : (climb true)^[u - q.length] [] = [] := Function.iterate_fixed rfl _
    have hnames := climb_names true hq [] le_rfl
    rw [List.append_nil, List.drop_length] at hnames
    have hsum : u = (u - q.length) + q.length := by omega
    rw [hsum, Function.iterate_add_apply, hnames, hroot, ← hsum, List.drop_eq_nil_of_le (by omega)]

/-- Above the names of a relative path, each level is a `..`. -/
theorem climb_dots (u m : ℕ) :
    (climb false)^[u] (List.replicate m "..") = List.replicate (m + u) ".." := by
  induction u generalizing m with
  | zero => rfl
  | succ u ih =>
      have hclimb : climb false (List.replicate m "..") = List.replicate (m + 1) ".." := by
        cases m <;> simp [climb, List.replicate_succ]
      rw [Function.iterate_succ_apply, hclimb, ih]
      congr 1
      omega

/-- A cleaned path has its `..` first, and none when it is rooted. -/
theorem clean_shape (path : String) :
    ∃ q m, ".." ∉ q ∧ (clean path).parts.reverse = q ++ List.replicate m ".." ∧
      ((clean path).rooted = true → m = 0) := by
  obtain ⟨-, hnames, hall⟩ := relative_eq path
  have hparts : (clean path).parts =
      ((climb (clean path).rooted)^[ups path] []).reverse ++ names path := hall _ _
  refine ⟨(names path).reverse, if (clean path).rooted then 0 else ups path, by simpa, ?_, ?_⟩
  · rw [hparts]
    cases (clean path).rooted with
    | true => simp [climb_rooted]
    | false =>
        have hdots := climb_dots (ups path) 0
        rw [List.replicate_zero, Nat.zero_add] at hdots
        simp [hdots]
  · intro hrooted
    rw [if_pos hrooted]

/-- A joined name acts on the components of the directory. -/
theorem join_eq {dir : String} (hdir : dir ≠ "") (name : String) :
    join dir name = ⟨(clean dir).rooted,
      ((climb (clean dir).rooted)^[ups name] (clean dir).parts.reverse).reverse ++ names name⟩ := by
  have hlist : dir.toList ≠ [] := fun h => hdir (String.toList_eq_nil_iff.mp h)
  have htext : (dir ++ "/" ++ name).toList = dir.toList ++ '/' :: name.toList := by simp
  have hhead : (dir ++ "/" ++ name).toList.head? = dir.toList.head? := by
    rw [htext]
    cases hd : dir.toList with
    | nil => exact absurd hd hlist
    | cons c rest => rfl
  unfold join clean
  rw [if_neg hdir, hhead, split_slash]
  dsimp only
  rw [clean_parts_append, (relative_eq name).2.2]

/-- A name that climbs only through components that it can leave is within the directory exactly
when it names them again. -/
theorem within_of_drop {stack above below : List String} {u : ℕ} (hnames : ".." ∉ below)
    (habove : above = stack.drop u) :
    (∃ rest, above.reverse ++ below = stack.reverse ++ rest ∧ ".." ∉ rest) ↔
      (stack.take u).reverse <+: below := by
  have hstack : stack.reverse = above.reverse ++ (stack.take u).reverse := by
    rw [habove, ← List.reverse_append, List.take_append_drop]
  rw [hstack]
  constructor
  · intro ⟨rest, heq, _⟩
    rw [List.append_assoc] at heq
    exact ⟨rest, (List.append_cancel_left heq).symm⟩
  · intro ⟨rest, hrest⟩
    refine ⟨rest, by rw [List.append_assoc, hrest], fun h => hnames ?_⟩
    rw [← hrest]
    exact List.mem_append_right _ h

/-- A name that climbs above all names of a relative directory is not within it. -/
theorem not_within_of_dots {q below : List String} {m u : ℕ} (hq : ".." ∉ q) (hu : 0 < u) :
    ¬ ∃ rest, List.replicate (m + u) ".." ++ below = (q ++ List.replicate m "..").reverse ++ rest ∧
      ".." ∉ rest := by
  rintro ⟨rest, heq, hrest⟩
  have hcount := congrArg (List.count "..") heq
  have hq' : List.count ".." q = 0 := List.count_eq_zero.mpr hq
  have hrest' : List.count ".." rest = 0 := List.count_eq_zero.mpr hrest
  simp only [List.reverse_append, List.reverse_replicate, List.count_append, List.count_replicate,
    List.count_reverse, hq', hrest', beq_self_eq_true, if_true] at hcount
  omega

/-- Climbing past the names of a relative path leaves dots only. -/
theorem climb_past {q : List String} (hq : ".." ∉ q) (m : ℕ) {n : ℕ} (h : q.length ≤ n) :
    (climb false)^[n] (q ++ List.replicate m "..") =
      List.replicate (m + (n - q.length)) ".." := by
  have hsum : n = (n - q.length) + q.length := by omega
  rw [hsum, Function.iterate_add_apply, climb_names _ hq _ le_rfl, List.drop_left, climb_dots]
  congr 1
  omega

/-- Below the names of a path there are dots. -/
theorem dots_mem_take {q : List String} {m n : ℕ} (hlt : q.length < n) (hle : n ≤ q.length + m) :
    ".." ∈ (q ++ List.replicate m "..").take n := by
  rw [List.take_append]
  refine List.mem_append_right _ ?_
  rw [List.take_replicate, List.mem_replicate]
  exact ⟨by omega, rfl⟩

/-- A name that is joined to nothing is cleaned. -/
theorem join_empty_within_iff (name : String) :
    (join "" name).Within (clean "") ↔ Stays "" name := by
  obtain ⟨hrelative, hnames, -⟩ := relative_eq name
  have hempty : clean "" = ⟨false, []⟩ := by decide
  have hjoin : join "" name = clean name := rfl
  unfold Path.Within Stays
  rw [hjoin, hempty]
  by_cases hhead : name.toList.head? = some '/'
  · simp [clean, hhead]
  · have hclean : clean name = ⟨false, List.replicate (ups name) ".." ++ names name⟩ := by
      rw [← hrelative]
      simp [clean, relative, hhead]
    simp [hclean, hhead, hnames, List.rtake]

/-- A joined path is within the directory exactly when the name comes back to it. -/
theorem join_within_iff (dir name : String) :
    (join dir name).Within (clean dir) ↔ Stays dir name := by
  by_cases hdir : dir = ""
  · subst hdir
    exact join_empty_within_iff name
  · obtain ⟨-, hnames, -⟩ := relative_eq name
    rw [join_eq hdir]
    obtain ⟨q, m, hq, hstack, hroot⟩ := clean_shape dir
    have hlength : (clean dir).parts.length = q.length + m := by
      rw [← List.length_reverse, hstack, List.length_append, List.length_replicate]
    have hback : (clean dir).parts = (q ++ List.replicate m "..").reverse := by
      rw [← hstack, List.reverse_reverse]
    unfold Path.Within Stays
    rw [List.rtake_eq_reverse_take_reverse, hstack, hlength, hback]
    simp only [hdir, false_implies, true_and]
    by_cases hu : ups name ≤ q.length
    · have hle : ups name ≤ q.length + m := by omega
      rw [within_of_drop hnames (climb_names _ hq _ hu)]
      simp [hle]
    · cases hrooted : (clean dir).rooted with
      | true =>
          have hdrop := climb_rooted hq (ups name)
          rw [hroot hrooted, List.replicate_zero, List.append_nil]
          rw [within_of_drop hnames hdrop]
          simp
      | false =>
          -- the name climbs out of the directory, and names no dots afterwards
          rw [climb_past hq m (by omega), List.reverse_replicate]
          refine iff_of_false (not_within_of_dots hq (by omega)) ?_
          intro ⟨hle, hpre⟩
          have hle' : ups name ≤ q.length + m := by simpa using hle
          refine hnames (hpre.subset ?_)
          simpa using dots_mem_take (by omega) hle'

end Go
