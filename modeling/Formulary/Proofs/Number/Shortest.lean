/-
# The shortest decimal reads back

The search for the shortest decimal of a magnitude keeps only candidates that round to it, and behind
the last grid stands the exact expansion, so what it ends with rounds to the magnitude
(`Magnitude.magnitude?_shortest`). A magnitude that is not whole keeps a place behind the point
(`Magnitude.shortest_exponent_neg`).

Key definition: `Decimal.magnitude?`.
-/
import Formulary.Number.Shortest
import Formulary.Proofs.Number.Rounding

namespace Formulary

/-! Powers of natural numbers are the plain ones, also where more general powers are at hand. -/
attribute [local instance (1100)] instPowNat

/-- The magnitude nearest to a decimal, unless it is out of range. -/
def Decimal.magnitude? (d : Decimal) : Option Magnitude :=
  Magnitude.ofDecimal? d.digits d.exponent

/-- The zeros that are stripped off are powers of ten. -/
theorem stripZeros_mul_pow : ∀ count n : Nat,
    (stripZeros count n).1 * 10 ^ (stripZeros count n).2 = n
  | 0, n => by simp [stripZeros]
  | count + 1, n => by
    unfold stripZeros
    split
    · next h =>
      have ih := stripZeros_mul_pow count (n / 10)
      simp only [Nat.pow_succ, ← Nat.mul_assoc, ih]
      omega
    · simp

/-- A decimal without the zeros at its end stands for the same magnitude. -/
theorem Decimal.magnitude?_normalized (d : Decimal) : d.normalized.magnitude? = d.magnitude? := by
  unfold Decimal.normalized
  split
  · next h =>
    unfold Decimal.magnitude?
    rw [h]
    exact Magnitude.ofDecimal?_zero 0 d.exponent
  · have h := stripZeros_mul_pow d.digits.log2 d.digits
    have hscaled := Magnitude.ofDecimal?_scaled (stripZeros d.digits.log2 d.digits).1
      (stripZeros d.digits.log2 d.digits).2 d.exponent
    rw [h] at hscaled
    exact hscaled.symm

theorem roundDiv_eq_or (n d : Nat) : roundDiv n d = n / d ∨ roundDiv n d = n / d + 1 := by
  unfold roundDiv
  split
  · exact .inl rfl
  split
  · exact .inr rfl
  split
  · exact .inl rfl
  · exact .inr rfl

/-- What is taken has passed the test. -/
theorem passes_of_nearestOf? {passes : Nat → Bool} {n d k : Nat}
    (h : nearestOf? passes n d = some k) : passes k = true := by
  unfold nearestOf? at h
  split at h
  · next hlow hhigh =>
    obtain rfl := Option.some.inj h
    rcases roundDiv_eq_or n d with hr | hr
    · rw [hr, hlow]
    · rw [hr, hhigh]
  · next hlow _ =>
    obtain rfl := Option.some.inj h
    exact hlow
  · next _ hhigh =>
    obtain rfl := Option.some.inj h
    exact hhigh
  · cases h

namespace Magnitude

theorem magnitude?_of_readsBack {m : Magnitude} {digits : Nat} {place : Int}
    (h : m.readsBack digits place = true) : (Decimal.mk digits place).magnitude? = some m :=
  of_decide_eq_true h

/-- A neighbour on a grid is taken only if it reads back. -/
theorem magnitude?_of_neighbour? {m : Magnitude} {place : Int} {d : Decimal}
    (h : m.neighbour? place = some d) : d.magnitude? = some m := by
  unfold neighbour? at h
  obtain ⟨k, hk, rfl⟩ := Option.map_eq_some_iff.mp h
  have hpass := passes_of_nearestOf? hk
  exact magnitude?_of_readsBack hpass

/-- The expansion is exact: units times `5 ^ 1074`, over `10 ^ 1074`, are units over `2 ^ 1074`. -/
theorem magnitude?_expansion (m : Magnitude) : m.expansion.magnitude? = some m := by
  have hexp : (-(-(unitBits : Int))).toNat = unitBits := by omega
  have hzero : (-(unitBits : Int)).toNat = 0 := by omega
  have hten : 5 ^ unitBits * one = 10 ^ unitBits := by
    unfold one
    rw [← Nat.mul_pow]
  unfold Decimal.magnitude? ofDecimal? expansion
  rw [hexp, hzero, Nat.pow_zero, Nat.mul_one, Nat.mul_assoc, hten]
  have h := round?_mul_right m.units 1 (Nat.pow_pos (n := unitBits) (show 0 < 10 by decide))
  rw [Nat.one_mul] at h
  rw [h, round?_units]

/-- A candidate that reads back, or else the expansion, reads back. -/
theorem magnitude?_getD {m : Magnitude} {found : Option Decimal}
    (h : ∀ d, found = some d → d.magnitude? = some m) :
    (found.getD m.expansion).magnitude? = some m := by
  cases found with
  | none => exact magnitude?_expansion m
  | some d => exact h d rfl

theorem magnitude?_zero {m : Magnitude} (h : m.units = 0) :
    (Decimal.mk 0 0).magnitude? = some m := by
  have hz := round?_units m
  rw [h, ← Nat.zero_mul one, ← ofDecimal?_natural] at hz
  exact hz

/-- **The shortest decimal reads back.** -/
theorem magnitude?_shortest (m : Magnitude) : m.shortest.magnitude? = some m := by
  unfold shortest
  split
  · next h => exact magnitude?_zero h
  · refine (Decimal.magnitude?_normalized _).trans (magnitude?_getD fun d hd => ?_)
    obtain ⟨place, _, hplace⟩ := List.exists_of_findSome?_eq_some hd
    exact magnitude?_of_neighbour? hplace

/-- A magnitude that is not whole has a place behind the point. -/
theorem shortest_exponent_neg {m : Magnitude} (h : m.isWhole = false) :
    m.shortest.exponent < 0 := by
  refine Int.not_le.mp fun hpos => ?_
  have hwhole := isWhole_of_ofDecimal? hpos (magnitude?_shortest m)
  rw [h] at hwhole
  cases hwhole

end Magnitude
end Formulary
