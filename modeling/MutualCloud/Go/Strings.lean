import Mathlib.Algebra.Group.Int.Defs
import Mathlib.Algebra.Group.Nat.Defs
import Mathlib.Data.List.Basic
import Mathlib.Data.List.Infix

/-!
# The string functions of Go that the handlers use

`strings.Split`, `strings.Trim`, `strings.TrimSpace`, `strings.TrimPrefix`, `strings.TrimSuffix`,
`strings.HasPrefix`, `strings.ToLower`, `strings.Contains` and `strconv.ParseUint`, on the
characters of a string.
-/

namespace Go

/-- `strings.Split(s, sep)` for a separator of one character. -/
def split (s : String) (sep : Char) : List String :=
  (s.toList.splitOn sep).map String.ofList

/-- A string without the separator is one part. -/
theorem split_eq_singleton {s : String} {sep : Char} (h : sep ∉ s.toList) : split s sep = [s] := by
  unfold split
  rw [List.splitOn_eq_singleton h, List.map_singleton, String.ofList_toList]

/-- The parts of two strings with a slash between them. -/
theorem split_slash (a b : String) : split (a ++ "/" ++ b) '/' = split a '/' ++ split b '/' := by
  have htext : (a ++ "/" ++ b).toList = a.toList ++ '/' :: b.toList := by simp
  unfold split
  rw [htext, List.splitOn_append_cons_self, List.map_append]

/-- Remove the characters in `cutset` from both ends. -/
def trimFunc (s : String) (cutset : Char → Bool) : String :=
  String.ofList ((s.toList.dropWhile cutset).reverse.dropWhile cutset).reverse

/-- `strings.Trim(s, c)` for a cutset of one character. -/
def trim (s : String) (c : Char) : String := trimFunc s (· == c)

/-- `unicode.IsSpace`. -/
def isSpace (c : Char) : Bool :=
  c ∈ ['\t', '\n', '\x0b', '\x0c', '\r', ' ', '\u0085', '\u00a0', '\u1680',
    '\u2028', '\u2029', '\u202f', '\u205f', '\u3000'] ||
  ('\u2000' ≤ c && c ≤ '\u200a')

/-- `strings.TrimSpace`. -/
def trimSpace (s : String) : String := trimFunc s isSpace

/-- `strings.HasPrefix(s, start)`. -/
def hasPrefix (s start : String) : Bool := start.toList.isPrefixOf s.toList

/-- `strings.TrimPrefix(s, start)`. -/
def trimPrefix (s start : String) : String :=
  if hasPrefix s start then String.ofList (s.toList.drop start.toList.length) else s

/-- `strings.TrimSuffix(s, tail)`. -/
def trimSuffix (s tail : String) : String :=
  if tail.toList.isSuffixOf s.toList then
    String.ofList (s.toList.take (s.toList.length - tail.toList.length))
  else s

/-- `strings.ToLower` on the letters of ASCII. The handlers compare the result with words none of
whose letters is the lower case of any other letter. -/
def toLower (s : String) : String := String.ofList (s.toList.map Char.toLower)

/-- `strings.ToLower` on the letters whose lower case is a letter of ASCII, which besides those of
ASCII are the dotted capital I and the Kelvin sign. -/
def toLowerLatin (s : String) : String :=
  String.ofList (s.toList.map fun c =>
    if c = '\u0130' then 'i' else if c = '\u212a' then 'k' else c.toLower)

/-- `strings.Contains(s, sub)`. -/
def contains (s sub : String) : Bool := s.toList.tails.any fun rest => sub.toList.isPrefixOf rest

/-- A string contains another one if its characters stand in it in a row. -/
theorem contains_iff {s sub : String} : contains s sub = true ↔ sub.toList <:+: s.toList := by
  unfold contains
  rw [List.any_eq_true, List.infix_iff_prefix_suffix]
  constructor
  · intro h
    obtain ⟨rest, hrest, hsub⟩ := h
    exact ⟨rest, List.isPrefixOf_iff_prefix.mp hsub, (List.mem_tails rest s.toList).mp hrest⟩
  · intro h
    obtain ⟨rest, hsub, hrest⟩ := h
    exact ⟨rest, (List.mem_tails rest s.toList).mpr hrest, List.isPrefixOf_iff_prefix.mpr hsub⟩

/-- What a string contains has no other characters. -/
theorem not_contains_of_not_mem {s sub : String} {c : Char} (hc : c ∈ sub.toList)
    (hs : c ∉ s.toList) : contains s sub = false := by
  rw [Bool.eq_false_iff, ne_eq, contains_iff]
  exact fun h => hs (h.subset hc)

/-- What a longer string contains it contains after its start, unless a part of it matches the end
of the start. -/
theorem contains_append {start s sub : String}
    (h : ∀ rest ∈ start.toList.tails, rest ≠ [] →
      ¬ sub.toList <+: rest ∧ ¬ rest <+: sub.toList) :
    contains (start ++ s) sub = contains s sub := by
  rw [Bool.eq_iff_iff, contains_iff, contains_iff, String.toList_append]
  constructor
  · intro hsub
    generalize start.toList = chars at h hsub
    induction chars with
    | nil => exact hsub
    | cons c chars ih =>
        have hnot := h (c :: chars) (by simp) (by simp)
        rcases List.infix_cons_iff.mp hsub with hhere | hlater
        · -- an occurrence at this place agrees with what is left of the start
          rcases List.prefix_or_prefix_of_prefix hhere
            (List.prefix_append (c :: chars) s.toList) with hle | hle
          · exact absurd hle hnot.1
          · exact absurd hle hnot.2
        · refine ih (fun rest hrest => h rest ?_) hlater
          rw [List.mem_tails] at hrest ⊢
          exact hrest.trans (List.suffix_cons c chars)
  · exact fun hsub => hsub.trans (List.suffix_append _ _).isInfix

/-- `strconv.ParseUint(s, 10, 64)`, without the value that accompanies an error. -/
def parseUint (s : String) : Option UInt64 :=
  let digits := s.toList
  let value := digits.foldl (fun n c => 10 * n + (c.toNat - '0'.toNat)) 0
  if digits ≠ [] ∧ digits.all Char.isDigit ∧ value < 2 ^ 64 then some (UInt64.ofNat value) else none

/-- `strconv.Atoi(s)`, without the value that accompanies an error. -/
def atoi (s : String) : Option Int :=
  let (sign, digits) : Int × List Char :=
    match s.toList with
    | '-' :: rest => (-1, rest)
    | '+' :: rest => (1, rest)
    | digits => (1, digits)
  let value : Int := sign * digits.foldl (fun n c => 10 * n + (c.toNat - '0'.toNat)) 0
  if digits ≠ [] ∧ digits.all Char.isDigit ∧ -2 ^ 63 ≤ value ∧ value < 2 ^ 63 then some value
  else none

/-- The digits of a number are read back. -/
theorem digits_read (m : ℕ) :
    (Nat.toDigits 10 m).foldl (fun n c => 10 * n + (c.toNat - '0'.toNat)) 0 = m ∧
      Nat.toDigits 10 m ≠ [] ∧ (Nat.toDigits 10 m).all Char.isDigit = true := by
  refine ⟨?_, Nat.toDigits_ne_nil, ?_⟩
  · rw [← Nat.ofDigitChars_eq_foldl]
    exact Nat.ofDigitChars_toDigits (by decide) (by decide)
  · rw [List.all_eq_true]
    exact fun c hc => Nat.isDigit_of_mem_toDigits (by decide) (by decide) hc

/-- The decimal text of a number is read back as long as the number is a `uint64` value. -/
theorem parse_uint_to_string {m : ℕ} (h : m < 2 ^ 64) :
    parseUint (toString (m : Int)) = some (UInt64.ofNat m) := by
  have htext : (toString (m : Int)).toList = Nat.toDigits 10 m := Nat.toList_repr
  obtain ⟨hvalue, hne, hall⟩ := digits_read m
  unfold parseUint
  dsimp only
  rw [htext, hvalue, if_pos ⟨hne, hall, h⟩]

/-- A decimal text is read back when it is in the range of an `int`, and an error otherwise. -/
theorem atoi_to_string (n : Int) :
    atoi (toString n) = if -2 ^ 63 ≤ n ∧ n < 2 ^ 63 then some n else none := by
  cases n with
  | ofNat m =>
      have htext : (toString (Int.ofNat m)).toList = Nat.toDigits 10 m := Nat.toList_repr
      obtain ⟨hvalue, hne, hall⟩ := digits_read m
      unfold atoi
      rw [htext]
      split
      next sign digits hsplit =>
        -- a digit is not a sign
        obtain ⟨rfl, rfl⟩ : sign = 1 ∧ digits = Nat.toDigits 10 m := by
          split at hsplit
          next heq => simp [heq] at hall
          next heq => simp [heq] at hall
          next => simpa [eq_comm] using hsplit
        simp only [hvalue, hall, hne, Int.one_mul, ne_eq, not_false_eq_true, true_and,
          Int.ofNat_eq_natCast]
  | negSucc m =>
      have htext : (toString (Int.negSucc m)).toList = '-' :: Nat.toDigits 10 (m + 1) := by
        show ("-" ++ (m + 1).repr).toList = _
        rw [String.toList_append, Nat.toList_repr]
        rfl
      obtain ⟨hvalue, hne, hall⟩ := digits_read (m + 1)
      unfold atoi
      rw [htext]
      have hneg : (-1 : Int) * ((m + 1 : ℕ) : Int) = Int.negSucc m := by omega
      simp only [hvalue, hall, hne, hneg, ne_eq, not_false_eq_true, true_and]

example : split (trim "/jobs/7/finish" '/') '/' = ["jobs", "7", "finish"] := by decide

example : parseUint "18446744073709551615" = some 18446744073709551615 := by decide

example : atoi "-20" = some (-20) ∧ atoi "2o" = none := by decide

end Go
