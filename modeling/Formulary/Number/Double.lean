/-
# Double-precision numbers, exactly

The value nodes of a formula hold integers or double-precision binary numbers. A finite double is a
sign and a magnitude, and a magnitude is a natural number of *units*, where one unit is `2 ^ -1074`,
the smallest positive double: at most 53 bits of it are significant, and it is below `2 ^ 2098`
units, which is `2 ^ 1024`. Rounding is to the nearest double and, halfway between two, to the one
whose last significant bit is zero; it takes a quotient of natural numbers and never computes with
anything but natural numbers.

Key definitions: `Magnitude`, `Magnitude.round?`, `Double`.
Key theorem: `Magnitude.pow_dvd_roundUnits`, a rounded magnitude has at most 53 significant bits.
-/

namespace Formulary

/-! Powers of natural numbers are the plain ones, also where more general powers are at hand. -/
attribute [local instance (1100)] instPowNat

/-- The natural number nearest to `n / d`; halfway between two, the even one. -/
def roundDiv (n d : Nat) : Nat :=
  if 2 * (n % d) < d then n / d
  else if d < 2 * (n % d) then n / d + 1
  else if n / d % 2 = 0 then n / d
  else n / d + 1

theorem roundDiv_le (n d : Nat) : roundDiv n d ≤ n / d + 1 := by
  unfold roundDiv
  split
  · omega
  · split
    · omega
    · split <;> omega

/-- One is `2 ^ unitBits` units. -/
def unitBits : Nat := 1074

/-- The magnitudes of finite doubles are below `2 ^ topBits` units, which is `2 ^ 1024`. -/
def topBits : Nat := 2098

/-- The magnitude of a finite double, in units of `2 ^ -1074`. -/
structure Magnitude where
  units : Nat
  /-- At most 53 bits are significant. -/
  precise : 2 ^ (units.log2 - 52) ∣ units
  bounded : units < 2 ^ topBits
deriving DecidableEq

namespace Magnitude

/-- The number of units in one. -/
def one : Nat := 2 ^ unitBits

/-- The quotient `n / d`, a number of units, rounded to 53 significant bits. -/
def roundUnits (n d : Nat) : Nat :=
  roundDiv n (d * 2 ^ ((n / d).log2 - 52)) * 2 ^ ((n / d).log2 - 52)

theorem roundDiv_le_two_pow (n d : Nat) :
    roundDiv n (d * 2 ^ ((n / d).log2 - 52)) ≤ 2 ^ (53 : Nat) := by
  have hq : n / (d * 2 ^ ((n / d).log2 - 52)) < 2 ^ (53 : Nat) := by
    rw [← Nat.div_div_eq_div_mul, Nat.div_lt_iff_lt_mul (Nat.two_pow_pos _), ← Nat.pow_add]
    exact Nat.lt_of_lt_of_le Nat.lt_log2_self (Nat.pow_le_pow_right (by decide) (by omega))
  exact Nat.le_trans (roundDiv_le _ _) hq

/-- A multiple of `2 ^ e` by at most `2 ^ 53` has at most 53 significant bits. -/
theorem pow_dvd_mul_two_pow {r : Nat} (e : Nat) (hr : r ≤ 2 ^ (53 : Nat)) :
    2 ^ ((r * 2 ^ e).log2 - 52) ∣ r * 2 ^ e := by
  rcases Nat.lt_or_eq_of_le hr with h | rfl
  · rcases Nat.eq_zero_or_pos r with rfl | hpos
    · simp
    · have hne : r * 2 ^ e ≠ 0 := Nat.ne_of_gt (Nat.mul_pos hpos (Nat.two_pow_pos e))
      have hlt : r * 2 ^ e < 2 ^ (53 + e) := by
        rw [Nat.pow_add]
        exact Nat.mul_lt_mul_of_pos_right h (Nat.two_pow_pos e)
      have hlog : (r * 2 ^ e).log2 < 53 + e := (Nat.log2_lt hne).mpr hlt
      exact Nat.dvd_trans (Nat.pow_dvd_pow 2 (by omega)) (Nat.dvd_mul_left _ _)
  · rw [← Nat.pow_add, Nat.log2_two_pow]
    exact Nat.pow_dvd_pow 2 (by omega)

/-- A rounded magnitude has at most 53 significant bits. -/
theorem pow_dvd_roundUnits (n d : Nat) :
    2 ^ ((roundUnits n d).log2 - 52) ∣ roundUnits n d :=
  pow_dvd_mul_two_pow _ (roundDiv_le_two_pow n d)

/-- The magnitude nearest to `n / d` units, unless that is `2 ^ 1024` or more. -/
def round? (n d : Nat) : Option Magnitude :=
  if h : roundUnits n d < 2 ^ topBits then some ⟨roundUnits n d, pow_dvd_roundUnits n d, h⟩
  else none

/-- The magnitude nearest to `digits * 10 ^ exponent`, unless that is `2 ^ 1024` or more. -/
def ofDecimal? (digits : Nat) (exponent : Int) : Option Magnitude :=
  round? (digits * 10 ^ exponent.toNat * one) (10 ^ (-exponent).toNat)

/-- The magnitude zero. -/
def zero : Magnitude := ⟨0, by simp, Nat.two_pow_pos topBits⟩

/-- Whether the magnitude is a whole number. -/
def isWhole (m : Magnitude) : Bool :=
  m.units % one = 0

/-- The whole part of the magnitude. -/
def floor (m : Magnitude) : Nat :=
  m.units / one

end Magnitude

/-- A double-precision number. -/
inductive Double
  | nan
  | infinite (negative : Bool)
  | finite (negative : Bool) (magnitude : Magnitude)
deriving DecidableEq

/-- The double nearest to `digits * 10 ^ exponent` with the given sign; infinite from `2 ^ 1024` on,
after rounding. -/
def Double.ofDecimal (negative : Bool) (digits : Nat) (exponent : Int) : Double :=
  match Magnitude.ofDecimal? digits exponent with
  | some m => .finite negative m
  | none => .infinite negative

end Formulary
