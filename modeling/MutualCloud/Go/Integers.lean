import Mathlib.Data.Int.Basic
import Mathlib.Tactic.NormNum

/-!
# Go's fixed-width integers, times and durations

Conversions between `uint64` and `int64` keep the bits, so a token above `2 ^ 63` becomes a
negative SQL parameter. A `time.Time` is the number of nanoseconds since Go's zero time, so
`IsZero` is equality with zero, and a `time.Duration` is a number of nanoseconds.
-/

namespace Go

/-- `time.Time`: nanoseconds since the zero time. -/
abbrev Time := Int

/-- `time.Duration`: nanoseconds. -/
abbrev Duration := Int

/-- `time.Second`. -/
def second : Duration := 1000000000

/-- `int(d.Seconds())`: whole seconds, rounded towards zero. -/
def seconds (d : Duration) : Int := d.tdiv second

/-- `int64(u)` for a `uint64` value `u`. -/
def int64 (u : UInt64) : Int := Int.bmod u.toNat (2 ^ 64)

/-- `uint64(x)` for an `int64` value `x`. -/
def uint64 (x : Int) : UInt64 := UInt64.ofNat (x % 2 ^ 64).toNat

/-- `x++` on an `int64` value. -/
def incr (x : Int) : Int := Int.bmod (x + 1) (2 ^ 64)

/-- Below `2 ^ 63` the conversion keeps the value. -/
theorem int64_of_lt {u : UInt64} (h : u.toNat < 2 ^ 63) : int64 u = u.toNat := by
  unfold int64
  rw [Int.bmod_eq_of_le]
  all_goals omega

/-- From `2 ^ 63` on the conversion gives a negative value. -/
theorem int64_neg {u : UInt64} (h : 2 ^ 63 ≤ u.toNat) : int64 u < 0 := by
  have hlt : u.toNat < 2 ^ 64 := u.toNat_lt
  unfold int64
  rw [Int.bmod_def, Int.emod_eq_of_lt (by omega) (by omega), if_neg (by omega)]
  omega

/-- The conversion is nonnegative exactly below `2 ^ 63`. -/
theorem int64_nonneg_iff {u : UInt64} : 0 ≤ int64 u ↔ u.toNat < 2 ^ 63 := by
  constructor
  · intro h
    by_contra hge
    have := int64_neg (u := u) (by omega)
    omega
  · intro h
    rw [int64_of_lt h]
    omega

/-- A `uint64` value that is not below a nonnegative one as an `int64` value keeps its value. -/
theorem toNat_of_le_int64 {x : Int} {u : UInt64} (hx : 0 ≤ x) (h : x ≤ int64 u) :
    u.toNat < 2 ^ 63 ∧ x ≤ u.toNat := by
  have hsmall : u.toNat < 2 ^ 63 := int64_nonneg_iff.mp (by omega)
  rw [int64_of_lt hsmall] at h
  exact ⟨hsmall, h⟩

/-- The bits of an `int64` value in range, read as a `uint64`. -/
theorem toNat_uint64 {x : Int} (h : 0 ≤ x) (hx : x < 2 ^ 63) : (uint64 x).toNat = x.toNat := by
  have hmod : x % 2 ^ 64 = x := Int.emod_eq_of_lt h (by omega)
  unfold uint64
  rw [hmod, UInt64.toNat_ofNat']
  exact Nat.mod_eq_of_lt (by omega)

/-- A nonnegative `int64` value survives the round trip through `uint64`. -/
theorem int64_uint64 {x : Int} (h : 0 ≤ x) (hx : x < 2 ^ 63) : int64 (uint64 x) = x := by
  have hn := toNat_uint64 h hx
  rw [int64_of_lt (by omega), hn]
  omega

/-- Equal parameters come from equal tokens. -/
theorem int64_injective {u v : UInt64} (h : int64 u = int64 v) : u = v := by
  apply UInt64.toNat_inj.mp
  have hu : u.toNat < 2 ^ 64 := u.toNat_lt
  have hv : v.toNat < 2 ^ 64 := v.toNat_lt
  unfold int64 at h
  simp only [Int.bmod_def] at h
  omega

end Go
