import MutualCloud.Go.Paths
import Mathlib.Data.List.MinMax

/-!
# `http.ServeMux`

How a `ServeMux` finds the pattern for the path of a request: it cleans the path, and a path that is
not clean is redirected to the one that is. `clean_path_eq_iff` says which paths are clean.
-/

namespace Go

/-- `strings.HasSuffix(s, tail)`. -/
def hasSuffix (s tail : String) : Bool := tail.toList.isSuffixOf s.toList

/-- A path from the root with these components. -/
def slashed : List String → String
  | [] => ""
  | part :: rest => "/" ++ part ++ slashed rest

/-- The text of a cleaned path from the root. -/
def Path.text (path : Path) : String :=
  if path.parts = [] then "/" else slashed path.parts

/-- `cleanPath` of `net/http`, which keeps a slash at the end. -/
def cleanPath (path : String) : String :=
  if path = "" then "/"
  else
    let rooted := if path.toList.head? = some '/' then path else "/" ++ path
    let cleaned := (clean rooted).text
    if hasSuffix rooted "/" ∧ cleaned ≠ "/" then cleaned ++ "/" else cleaned

/-- What a `ServeMux` does with a path. -/
inductive Found where
  | redirect (path : String)
  | notFound
  | pattern (text : String)
  deriving DecidableEq

/-- A pattern that ends in a slash matches what is below it, any other pattern only itself. -/
def patternMatches (pattern path : String) : Bool :=
  if hasSuffix pattern "/" then hasPrefix path pattern else path = pattern

/-- `ServeMux.findHandler`, for patterns without a method, a host or a wildcard. The longest pattern
is the most specific one. -/
def findHandler (patterns : List String) (path : String) : Found :=
  let cleaned := cleanPath path
  if cleaned ∉ patterns ∧ ¬ hasSuffix cleaned "/" ∧ cleaned ++ "/" ∈ patterns then
    .redirect (cleaned ++ "/")
  else if cleaned ≠ path then .redirect cleaned
  else match (patterns.filter (patternMatches · path)).argmax String.length with
    | none => .notFound
    | some pattern => .pattern pattern

/-! ## Clean paths -/

/-- A component that cleaning keeps. -/
def Plain (part : String) : Prop := part ≠ "" ∧ part ≠ "." ∧ part ≠ ".."

instance (part : String) : Decidable (Plain part) := inferInstanceAs (Decidable (_ ∧ _ ∧ _))

/-- The components of a path can be read back from its text. -/
theorem split_slashed {part : String} {parts : List String} (hpart : '/' ∉ part.toList)
    (hparts : ∀ p ∈ parts, '/' ∉ p.toList) : split (part ++ slashed parts) '/' = part :: parts := by
  induction parts generalizing part with
  | nil =>
      have htext : part ++ slashed [] = part := by simp [slashed]
      rw [htext, split_eq_singleton hpart]
  | cons next rest ih =>
      have htext : part ++ slashed (next :: rest) = part ++ "/" ++ (next ++ slashed rest) := by
        simp [slashed, String.append_assoc]
      rw [htext, split_slash, split_eq_singleton hpart, ih (hparts next (by simp))
        fun p hp => hparts p (by simp [hp])]
      rfl

/-- The components of a path are determined by its text. -/
theorem slashed_injective {a b : List String} (ha : ∀ p ∈ a, '/' ∉ p.toList)
    (hb : ∀ p ∈ b, '/' ∉ p.toList) (h : slashed a = slashed b) : a = b := by
  have hempty : '/' ∉ "".toList := by simp
  have hsplit := congrArg (fun text => split ("" ++ text) '/') h
  simp only [split_slashed hempty ha, split_slashed hempty hb] at hsplit
  exact (List.cons.inj hsplit).2

/-- A string is determined by its parts. -/
theorem split_injective {s t : String} (h : split s '/' = split t '/') : s = t := by
  have hlists : s.toList.splitOn '/' = t.toList.splitOn '/' := by
    have hmap := congrArg (List.map String.toList) h
    simpa [split, List.map_map, Function.comp_def] using hmap
  have htexts := congrArg ['/'].intercalate hlists
  rw [List.intercalate_splitOn, List.intercalate_splitOn] at htexts
  exact String.toList_injective htexts

@[simp] theorem slashed_append (a b : List String) : slashed (a ++ b) = slashed a ++ slashed b := by
  induction a with
  | nil => simp [slashed]
  | cons part rest ih => simp [slashed, ih, String.append_assoc]

/-- No part of a string has the separator. -/
theorem not_mem_of_mem_split {s part : String} {sep : Char} (h : part ∈ split s sep) :
    sep ∉ part.toList := by
  have hlists : ∀ (text l : List Char), l ∈ text.splitOn sep → sep ∉ l := by
    intro text
    induction text with
    | nil =>
        intro l hl
        simp only [List.splitOn_nil, List.mem_singleton] at hl
        simp [hl]
    | cons c rest ih =>
        intro l hl
        rw [List.splitOn_cons_eq_if_modifyHead] at hl
        split at hl
        · rcases List.mem_cons.mp hl with rfl | hl
          · simp
          · exact ih l hl
        next hc =>
            obtain ⟨first, later, heq⟩ := List.exists_cons_of_ne_nil (List.splitOn_ne_nil sep rest)
            rw [heq] at hl ih
            rcases List.mem_cons.mp hl with rfl | hl
            · have hfirst := ih first (by simp)
              have hne : sep ≠ c := fun h => hc (by simp [h])
              simp [hne, hfirst]
            · exact ih l (by simp [hl])
  obtain ⟨l, hl, rfl⟩ := List.mem_map.mp h
  rw [String.toList_ofList]
  exact hlists _ l hl

/-- The parts of a string, each after a slash, are the string after a slash. -/
theorem slashed_split (s : String) : slashed (split s '/') = "/" ++ s := by
  refine split_injective ?_
  have hparts := @split_slashed "" (split s '/') (by simp) fun p hp => not_mem_of_mem_split hp
  have htext := split_slash "" s
  rw [String.empty_append] at hparts htext
  rw [hparts, htext]
  rfl

/-- A string that is one part has no separator. -/
theorem split_eq_singleton_iff {s part : String} :
    split s '/' = [part] ↔ part = s ∧ '/' ∉ s.toList := by
  constructor
  · intro h
    have hpart : '/' ∉ part.toList := not_mem_of_mem_split (s := s) (by simp [h])
    have hsame : part = s := split_injective ((split_eq_singleton hpart).trans h.symm)
    exact ⟨hsame, hsame ▸ hpart⟩
  · rintro ⟨rfl, hpart⟩
    exact split_eq_singleton hpart

/-- Cleaning from the root keeps plain components only. -/
theorem clean_parts_root {stack parts : List String} (hstack : ∀ p ∈ stack, Plain p) :
    ∀ p ∈ cleanParts true stack parts, Plain p ∧ (p ∈ stack ∨ p ∈ parts) := by
  induction parts generalizing stack with
  | nil =>
      intro p hp
      rw [cleanParts, List.mem_reverse] at hp
      exact ⟨hstack p hp, .inl hp⟩
  | cons part parts ih =>
      intro p hp
      by_cases hskip : part = "" ∨ part = "."
      · rw [clean_parts_skip hskip] at hp
        obtain ⟨hplain, hmem⟩ := ih hstack p hp
        exact ⟨hplain, hmem.imp id (List.mem_cons_of_mem _)⟩
      · by_cases hup : part = ".."
        · rw [hup, clean_parts_climb] at hp
          have hclimb : ∀ q ∈ climb true stack, q ∈ stack := by
            cases stack with
            | nil => simp [climb]
            | cons top below =>
                have htop : top ≠ ".." := (hstack top (by simp)).2.2
                simp only [climb, if_neg htop]
                exact fun q hq => List.mem_cons_of_mem _ hq
          obtain ⟨hplain, hmem⟩ := ih (fun q hq => hstack q (hclimb q hq)) p hp
          exact ⟨hplain, hmem.imp (hclimb p) (List.mem_cons_of_mem _)⟩
        · rw [clean_parts_name hskip hup] at hp
          have hpart : Plain part := ⟨fun h => hskip (.inl h), fun h => hskip (.inr h), hup⟩
          obtain ⟨hplain, hmem⟩ := ih (List.forall_mem_cons.mpr ⟨hpart, hstack⟩) p hp
          refine ⟨hplain, ?_⟩
          rcases hmem with hmem | hmem
          · rcases List.mem_cons.mp hmem with rfl | hmem
            · exact .inr (by simp)
            · exact .inl hmem
          · exact .inr (List.mem_cons_of_mem _ hmem)

/-- The components of a path cleaned from the root are plain components without a slash. -/
theorem clean_parts_kept {parts : List String} (hslash : ∀ p ∈ parts, '/' ∉ p.toList) :
    ∀ p ∈ cleanParts true [] parts, Plain p ∧ '/' ∉ p.toList := by
  intro p hp
  obtain ⟨hplain, hmem⟩ := clean_parts_root (by simp) p hp
  exact ⟨hplain, hslash p (hmem.resolve_left (by simp))⟩

/-- Cleaning keeps plain components. -/
theorem clean_parts_plain {rooted : Bool} {stack parts : List String} (h : ∀ p ∈ parts, Plain p) :
    cleanParts rooted stack parts = stack.reverse ++ parts := by
  induction parts generalizing stack with
  | nil => rw [cleanParts, List.append_nil]
  | cons part parts ih =>
      obtain ⟨hempty, hdot, hup⟩ := h part (by simp)
      have hskip : ¬ (part = "" ∨ part = ".") := not_or.mpr ⟨hempty, hdot⟩
      rw [clean_parts_name hskip hup, ih fun p hp => h p (by simp [hp])]
      simp

/-- The components of a clean path are plain, but for an empty one at the end. -/
def CleanParts (parts : List String) : Prop :=
  (∀ p ∈ parts, Plain p) ∨ ∃ init, parts = init ++ [""] ∧ ∀ p ∈ init, Plain p

/-- The components of a path from the root, cleaned. -/
theorem clean_slashed {parts : List String} (hne : parts ≠ [])
    (hslash : ∀ p ∈ parts, '/' ∉ p.toList) :
    clean (slashed parts) = ⟨true, cleanParts true [] parts⟩ := by
  have hsplit := @split_slashed "" parts (by simp) hslash
  have hhead : (slashed parts).toList.head? = some '/' := by
    cases parts with
    | nil => exact absurd rfl hne
    | cons part rest => simp [slashed]
  rw [String.empty_append] at hsplit
  simp [clean, hhead, hsplit, cleanParts]

/-- A path from the root that ends in a plain component does not end in a slash. -/
theorem not_has_suffix_slash {init : List String} {last : String} (hslash : '/' ∉ last.toList)
    (hlast : last ≠ "") : hasSuffix (slashed (init ++ [last])) "/" = false := by
  have htext : (slashed (init ++ [last])).toList =
      ((slashed init).toList ++ ['/']) ++ last.toList := by simp [slashed]
  have hlist : last.toList ≠ [] := fun h => hlast (String.toList_eq_nil_iff.mp h)
  rw [Bool.eq_false_iff]
  intro h
  rw [hasSuffix, List.isSuffixOf_iff_suffix, htext] at h
  obtain ⟨before, heq⟩ := h
  have hend := congrArg List.getLast? heq
  rw [List.getLast?_append_of_ne_nil _ hlist] at hend
  have hmem : '/' ∈ last.toList := List.mem_of_getLast? (by simpa using hend.symm)
  exact hslash hmem

/-- The cleaned path of a path from the root. -/
theorem clean_path_slashed {parts : List String} (hne : parts ≠ [])
    (hslash : ∀ p ∈ parts, '/' ∉ p.toList) :
    cleanPath (slashed parts) =
      if cleanParts true [] parts = [] then slashed [""]
      else if hasSuffix (slashed parts) "/" then slashed (cleanParts true [] parts ++ [""])
      else slashed (cleanParts true [] parts) := by
  have hpath : slashed parts ≠ "" := fun h => hne (slashed_injective hslash (by simp) h)
  have hhead : (slashed parts).toList.head? = some '/' := by
    obtain ⟨part, rest, rfl⟩ := List.exists_cons_of_ne_nil hne
    simp [slashed]
  rw [cleanPath, if_neg hpath, if_pos hhead]
  dsimp only
  rw [clean_slashed hne hslash, Path.text]
  dsimp only
  by_cases hnil : cleanParts true [] parts = []
  · rw [if_pos hnil, if_pos hnil, if_neg (by simp)]
    rfl
  · have hroot : slashed (cleanParts true [] parts) ≠ "/" := by
      intro h
      have hsame : cleanParts true [] parts = [""] :=
        slashed_injective (fun p hp => (clean_parts_kept hslash p hp).2) (by simp) h
      exact (clean_parts_kept hslash "" (by simp [hsame])).1.1 rfl
    rw [if_neg hnil, if_neg hnil, slashed_append]
    simp only [ne_eq, hroot, not_false_eq_true, and_true]
    rfl

/-- A path from the root is its own cleaned path exactly when its components are clean. -/
theorem clean_path_eq_iff {parts : List String} (hne : parts ≠ [])
    (hslash : ∀ p ∈ parts, '/' ∉ p.toList) :
    cleanPath (slashed parts) = slashed parts ↔ CleanParts parts := by
  have hkept := clean_parts_kept hslash
  rw [clean_path_slashed hne hslash]
  constructor
  · intro h
    -- the components of the cleaned path are clean, and they are those of the path
    have hparts : parts = cleanParts true [] parts ∨ parts = cleanParts true [] parts ++ [""] := by
      split at h
      next hnil =>
          rw [hnil]
          exact .inr (slashed_injective (by simp) hslash h).symm
      · split at h
        · refine .inr (slashed_injective (fun p hp => ?_) hslash h).symm
          rcases List.mem_append.mp hp with hp | hp
          · exact (hkept p hp).2
          · simp [List.mem_singleton.mp hp]
        · exact .inl (slashed_injective (fun p hp => (hkept p hp).2) hslash h).symm
    rcases hparts with hparts | hparts
    · left
      intro p hp
      rw [hparts] at hp
      exact (hkept p hp).1
    · exact .inr ⟨_, hparts, fun p hp => (hkept p hp).1⟩
  · rintro (hplain | ⟨init, rfl, hplain⟩)
    · have hsame : cleanParts true [] parts = parts := clean_parts_plain hplain
      obtain ⟨init, last, rfl⟩ := (List.eq_nil_or_concat parts).resolve_left hne
      rw [List.concat_eq_append] at *
      have hlast : last ∈ init ++ [last] := by simp
      rw [hsame, if_neg hne, not_has_suffix_slash (hslash last hlast) (hplain last hlast).1]
      rfl
    · have hsame : cleanParts true [] (init ++ [""]) = init := by
        rw [clean_parts_append, clean_parts_plain hplain, clean_parts_skip (.inl rfl), cleanParts]
        simp
      have hend : hasSuffix (slashed (init ++ [""])) "/" = true := by
        rw [hasSuffix, List.isSuffixOf_iff_suffix]
        exact ⟨(slashed init).toList, by simp [slashed]⟩
      rw [hsame, hend]
      split
      next hnil => rw [hnil, List.nil_append]
      · rfl

/-! ## Ends of a string -/

theorem trim_prefix_append (start s : String) : trimPrefix (start ++ s) start = s := by
  have hstart : hasPrefix (start ++ s) start = true := by
    rw [hasPrefix, List.isPrefixOf_iff_prefix, String.toList_append]
    exact List.prefix_append _ _
  rw [trimPrefix, if_pos hstart, String.toList_append, List.drop_left, String.ofList_toList]

theorem trim_suffix_append (s tail : String) : trimSuffix (s ++ tail) tail = s := by
  have htail : tail.toList.isSuffixOf (s ++ tail).toList = true := by
    rw [List.isSuffixOf_iff_suffix, String.toList_append]
    exact List.suffix_append _ _
  rw [trimSuffix, if_pos htail, String.toList_append, List.length_append, Nat.add_sub_cancel,
    List.take_left, String.ofList_toList]

@[simp] theorem has_suffix_append (s tail : String) : hasSuffix (s ++ tail) tail = true := by
  rw [hasSuffix, List.isSuffixOf_iff_suffix, String.toList_append]
  exact List.suffix_append _ _

/-- A string has no ending whose last character is another. -/
theorem has_suffix_eq_false {s tail other : String} (htail : tail.toList ≠ [])
    (hother : other.toList ≠ []) (h : other.toList.getLast? ≠ tail.toList.getLast?) :
    hasSuffix (s ++ tail) other = false := by
  rw [Bool.eq_false_iff]
  intro hsuffix
  rw [hasSuffix, List.isSuffixOf_iff_suffix, String.toList_append] at hsuffix
  obtain ⟨before, heq⟩ := hsuffix
  have hlast := congrArg List.getLast? heq
  rw [List.getLast?_append_of_ne_nil _ htail, List.getLast?_append_of_ne_nil _ hother] at hlast
  exact h hlast

/-- The slashes around a text go. -/
theorem trim_slash {body : String} (hfirst : body.toList.head? ≠ some '/')
    (hlast : body.toList.getLast? ≠ some '/') : trim ("/" ++ body) '/' = body := by
  have hdrop : ∀ l : List Char, l.head? ≠ some '/' → l.dropWhile (· == '/') = l := by
    intro l hl
    cases l with
    | nil => rfl
    | cons c rest =>
        have hc : (c == '/') = false := by simpa using hl
        rw [List.dropWhile_cons, hc]
        rfl
  have htext : ("/" ++ body).toList = '/' :: body.toList := by simp
  have hback : body.toList.reverse.head? ≠ some '/' := by rwa [List.head?_reverse]
  rw [trim, trimFunc, htext, List.dropWhile_cons_of_pos (by simp), hdrop _ hfirst, hdrop _ hback,
    List.reverse_reverse, String.ofList_toList]

/-- The slashes around a path from the root go, and its components are left. -/
theorem split_trim_slashed {parts : List String} (hslash : ∀ p ∈ parts, '/' ∉ p.toList)
    (hfirst : parts.head? ≠ some "") (hlast : parts.getLast? ≠ some "") (hne : parts ≠ []) :
    split (trim (slashed parts) '/') '/' = parts := by
  obtain ⟨first, rest, rfl⟩ := List.exists_cons_of_ne_nil hne
  have hempty : first.toList ≠ [] := by
    intro h
    exact hfirst (by rw [String.toList_eq_nil_iff.mp h]; rfl)
  have htext : slashed (first :: rest) = "/" ++ (first ++ slashed rest) := by
    simp [slashed, String.append_assoc]
  have hfront : (first ++ slashed rest).toList.head? ≠ some '/' := by
    rw [String.toList_append, List.head?_append_of_ne_nil _ hempty]
    intro h
    exact hslash first (by simp) (List.mem_of_mem_head? h)
  have hback : (first ++ slashed rest).toList.getLast? ≠ some '/' := by
    obtain ⟨init, last, hparts⟩ := (List.eq_nil_or_concat (first :: rest)).resolve_left hne
    rw [List.concat_eq_append] at hparts
    rw [hparts] at hlast hslash htext
    have hends := @not_has_suffix_slash init last (hslash last (by simp)) (by simpa using hlast)
    intro h
    obtain ⟨before, hbefore⟩ := List.getLast?_eq_some_iff.mp h
    rw [htext, hasSuffix, Bool.eq_false_iff] at hends
    refine hends (List.isSuffixOf_iff_suffix.mpr ⟨'/' :: before, ?_⟩)
    simp [hbefore]
  rw [htext, trim_slash hfront hback]
  exact split_slashed (hslash first (by simp)) fun p hp => hslash p (by simp [hp])

/-- Before a plain component, clean components are plain. -/
theorem clean_parts_concat {before parts : List String} {last : String}
    (hbefore : ∀ p ∈ before, Plain p) (hlast : Plain last) :
    CleanParts (before ++ parts ++ [last]) ↔ ∀ p ∈ parts, Plain p := by
  constructor
  · rintro (h | ⟨init, heq, -⟩) p hp
    · exact h p (by simp [hp])
    · exact absurd (List.append_inj_right' heq rfl) (by simpa using hlast.1)
  · intro h
    left
    intro p hp
    rcases List.mem_append.mp hp with hp | hp
    · exact (List.mem_append.mp hp).elim (hbefore p) (h p)
    · exact List.mem_singleton.mp hp ▸ hlast

/-- After plain components, components are clean when they are by themselves. -/
theorem clean_parts_append_iff {before parts : List String} (hbefore : ∀ p ∈ before, Plain p)
    (hne : parts ≠ []) : CleanParts (before ++ parts) ↔ CleanParts parts := by
  constructor
  · rintro (h | ⟨init, heq, hinit⟩)
    · exact .inl fun p hp => h p (by simp [hp])
    · right
      obtain ⟨later, last, rfl⟩ := (List.eq_nil_or_concat parts).resolve_left hne
      rw [List.concat_eq_append] at heq ⊢
      rw [← List.append_assoc] at heq
      obtain ⟨rfl, hlast⟩ := List.append_inj' heq rfl
      exact ⟨later, by rw [hlast], fun p hp => hinit p (by simp [hp])⟩
  · rintro (h | ⟨init, rfl, hinit⟩)
    · exact .inl fun p hp => (List.mem_append.mp hp).elim (hbefore p) (h p)
    · refine .inr ⟨before ++ init, by rw [List.append_assoc], fun p hp => ?_⟩
      exact (List.mem_append.mp hp).elim (hbefore p) (hinit p)

end Go
