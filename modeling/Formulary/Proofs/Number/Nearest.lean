/-
# Rounding is to the nearest double

A quotient of natural numbers, as a decimal is one, is rounded to the double that is nearest to it, among
all finite doubles and with either sign, and halfway between two doubles to the one with an even significand
(`Magnitude.isNearest_of_round?`).

Rounding keeps to multiples of one step, the step that doubles have from the leading bit of the quotient
on, and picks the nearest of them (`roundDiv_nearest`). Doubles below that bit have smaller steps; but they
are further away than the power of two with that bit alone, which is a multiple of the step.

Key definitions: `Magnitude.value`, `Magnitude.significand`, `Magnitude.IsNearest`.
Key theorems: `roundDiv_nearest`, `Magnitude.roundUnits_nearest`, `Magnitude.isNearest_of_round?`.
-/
import Formulary.Proofs.Number.Text

namespace Formulary

/-! Powers of natural numbers are the plain ones, also where more general powers are at hand. -/
attribute [local instance (1100)] instPowNat

/-! ### The nearest natural number -/

/-- Rounding takes one of the two natural numbers around a quotient. -/
theorem roundDiv_cases (n d : Nat) :
    (roundDiv n d = n / d ∧ 2 * (n % d) ≤ d ∧ (2 * (n % d) = d → n / d % 2 = 0)) ∨
      roundDiv n d = n / d + 1 ∧ d ≤ 2 * (n % d) ∧ (2 * (n % d) = d → (n / d + 1) % 2 = 0) := by
  unfold roundDiv
  split_ifs <;> omega

/-- How far `k` is from the quotient `n / d`, times `d`. -/
def distance (n d k : Nat) : Nat :=
  ((n : Int) - (k * d : Nat)).natAbs

/-- **A quotient is rounded to the nearest natural number**, and halfway between two to the even one. -/
theorem roundDiv_nearest {n d : Nat} (hd : 0 < d) (k : Nat) :
    distance n d (roundDiv n d) ≤ distance n d k ∧
      (distance n d (roundDiv n d) = distance n d k → k = roundDiv n d ∨ roundDiv n d % 2 = 0) := by
  have hn := Nat.div_add_mod' n d
  have hr := Nat.mod_lt n hd
  have hround := roundDiv_cases n d
  unfold distance
  generalize n / d = q at *
  generalize n % d = t at *
  -- The other number is the quotient without its fraction or below that, or it is above that.
  obtain ⟨j, rfl⟩ | ⟨j, rfl⟩ : (∃ j, q = k + j) ∨ ∃ j, k = q + 1 + j := by
    rcases Nat.lt_or_ge q k with hlt | hle
    · exact .inr ⟨k - (q + 1), by omega⟩
    · exact .inl ⟨q - k, by omega⟩
  · have hj : j = 0 ∨ d ≤ j * d := (Nat.eq_zero_or_pos j).imp_right (Nat.le_mul_of_pos_left d)
    rw [Nat.add_mul] at hn
    obtain ⟨hdown, hle, htie⟩ | ⟨hup, hle, htie⟩ := hround
    · rw [hdown, Nat.add_mul]
      omega
    · rw [hup, Nat.add_mul, Nat.add_mul]
      omega
  · have hj : j = 0 ∨ d ≤ j * d := (Nat.eq_zero_or_pos j).imp_right (Nat.le_mul_of_pos_left d)
    rw [Nat.add_mul (q + 1), Nat.add_mul q 1]
    obtain ⟨hdown, hle, htie⟩ | ⟨hup, hle, htie⟩ := hround
    · rw [hdown]
      omega
    · rw [hup, Nat.add_mul q 1]
      omega

/-- Multiples of a step are as far from a quotient as the multipliers are from the quotient in steps. -/
theorem distance_mul (n d k s : Nat) : distance n d (k * s) = distance n (d * s) k := by
  unfold distance
  rw [Nat.mul_assoc, Nat.mul_comm s d]

/-! ### The nearest magnitude -/

namespace Magnitude

/-- The significant bits of a magnitude as a number, 53 of them unless the magnitude is so small that its
last bit is one unit. -/
def significand (m : Magnitude) : Nat :=
  m.units / 2 ^ (m.units.log2 - 52)

/-- The step that a quotient of units is rounded to. -/
def stepBits (n d : Nat) : Nat :=
  (n / d).log2 - 52

theorem roundUnits_eq (n d : Nat) :
    roundUnits n d = roundDiv n (d * 2 ^ stepBits n d) * 2 ^ stepBits n d := rfl

/-- A quotient with a step of more than one unit has 53 bits before the step. -/
theorem le_div_of_stepBits {n d : Nat} (h : stepBits n d ≠ 0) :
    2 ^ (52 + stepBits n d) ≤ n / d := by
  have hlog : 52 + stepBits n d = (n / d).log2 := by
    unfold stepBits at h ⊢
    omega
  have hne : n / d ≠ 0 := by
    intro hzero
    rw [stepBits, hzero, Nat.log2_zero] at h
    exact h rfl
  rw [hlog]
  exact Nat.log2_self_le hne

/-- Magnitudes are multiples of the step, or below the leading bit of the quotient. -/
theorem dvd_or_lt (m : Magnitude) (e : Nat) : 2 ^ e ∣ m.units ∨ m.units < 2 ^ (52 + e) := by
  rcases Nat.lt_or_ge m.units (2 ^ (52 + e)) with hlt | hle
  · exact .inr hlt
  · have hne : m.units ≠ 0 := Nat.ne_of_gt (Nat.lt_of_lt_of_le (Nat.two_pow_pos _) hle)
    have hlog : 52 + e ≤ m.units.log2 := (Nat.le_log2 hne).mpr hle
    exact .inl ((Nat.pow_dvd_pow 2 (by omega)).trans m.precise)

/-- An even number of steps has an even significand. -/
theorem even_significand {r e : Nat} (hr : r ≤ 2 ^ (53 : Nat)) (he : e = 0 ∨ 2 ^ (52 : Nat) ≤ r)
    (heven : r % 2 = 0) : r * 2 ^ e / 2 ^ ((r * 2 ^ e).log2 - 52) % 2 = 0 := by
  rcases Nat.lt_or_eq_of_le hr with hlt | rfl
  · have hlog : (r * 2 ^ e).log2 - 52 = e := by
      have htop : r * 2 ^ e < 2 ^ (53 + e) := by
        rw [Nat.pow_add]
        exact Nat.mul_lt_mul_of_pos_right hlt (Nat.two_pow_pos e)
      have hbelow : r * 2 ^ e ≠ 0 → (r * 2 ^ e).log2 < 53 + e := fun hne => (Nat.log2_lt hne).mpr htop
      rcases Nat.eq_zero_or_pos (r * 2 ^ e) with hzero | hpos
      · have hrzero : r = 0 := (Nat.mul_eq_zero.mp hzero).resolve_right (Nat.two_pow_pos e).ne'
        rw [hzero, Nat.log2_zero]
        omega
      · have hlow : 2 ^ (52 : Nat) ≤ r → 52 + e ≤ (r * 2 ^ e).log2 := fun hle => by
          refine (Nat.le_log2 hpos.ne').mpr ?_
          rw [Nat.pow_add]
          exact Nat.mul_le_mul_right _ hle
        have hbelow := hbelow hpos.ne'
        omega
    rw [hlog, Nat.mul_div_cancel _ (Nat.two_pow_pos e), heven]
  · rw [← Nat.pow_add, Nat.log2_two_pow, Nat.pow_div (by omega) (by decide),
      show 53 + e - (53 + e - 52) = 52 by omega]

/-- A quotient is at most `2 ^ 53` steps, and at least half as many if a step is more than one unit. -/
theorem steps_bounds (n d : Nat) :
    roundDiv n (d * 2 ^ stepBits n d) ≤ 2 ^ (53 : Nat) ∧
      (stepBits n d = 0 ∨ 2 ^ (52 : Nat) ≤ roundDiv n (d * 2 ^ stepBits n d)) := by
  refine ⟨roundDiv_le_two_pow n d, (Classical.em (stepBits n d = 0)).imp_right fun hne => ?_⟩
  refine Nat.le_trans ?_ (le_roundDiv _ _)
  rw [← Nat.div_div_eq_div_mul, Nat.le_div_iff_mul_le (Nat.two_pow_pos _), ← Nat.pow_add]
  exact le_div_of_stepBits hne

/-- **A quotient of units is rounded to the nearest magnitude**, and halfway between two to the one with an
even significand. -/
theorem roundUnits_nearest {n d : Nat} (hd : 0 < d) (m : Magnitude) :
    distance n d (roundUnits n d) ≤ distance n d m.units ∧
      (distance n d (roundUnits n d) = distance n d m.units → m.units = roundUnits n d ∨
        roundUnits n d / 2 ^ ((roundUnits n d).log2 - 52) % 2 = 0) := by
  have hstep : 0 < d * 2 ^ stepBits n d := Nat.mul_pos hd (Nat.two_pow_pos _)
  have hnearest := @roundDiv_nearest n _ hstep
  obtain ⟨htop, hlow⟩ := steps_bounds n d
  have hleading := @le_div_of_stepBits n d
  rw [roundUnits_eq, distance_mul]
  generalize stepBits n d = e at *
  generalize roundDiv n (d * 2 ^ e) = r at *
  by_cases hdvd : 2 ^ e ∣ m.units
  · obtain ⟨k, hk⟩ := hdvd
    rw [Nat.mul_comm] at hk
    rw [hk, distance_mul]
    obtain ⟨hle, htie⟩ := hnearest k
    exact ⟨hle, fun heq => (htie heq).imp (fun hsame => by rw [hsame]) (even_significand htop hlow)⟩
  · -- The magnitude is below the leading bit of the quotient, so that the leading bit alone is nearer.
    have hsmall := (m.dvd_or_lt e).resolve_left hdvd
    have hne : e ≠ 0 := fun hzero => hdvd (by rw [hzero, Nat.pow_zero]; exact Nat.one_dvd _)
    have hbit : distance n (d * 2 ^ e) (2 ^ (52 : Nat)) < distance n d m.units := by
      have hle : 2 ^ (52 + e) * d ≤ n := (Nat.le_div_iff_mul_le hd).mp (hleading hne)
      have hlt : m.units * d < 2 ^ (52 + e) * d := Nat.mul_lt_mul_of_pos_right hsmall hd
      rw [← distance_mul, ← Nat.pow_add]
      unfold distance
      omega
    have hlt := Nat.lt_of_le_of_lt (hnearest _).1 hbit
    exact ⟨hlt.le, fun heq => (hlt.ne heq).elim⟩

/-! ### The nearest double -/

/-- The value of a magnitude. -/
def value (m : Magnitude) : ℚ :=
  m.units / one

/-- Whether a magnitude is nearest to a number among the finite doubles of either sign, and if others are
as near, has an even significand. -/
structure IsNearest (m : Magnitude) (x : ℚ) : Prop where
  nearest : ∀ (other : Double) (y : ℚ), (Number.real other).value? = some y → |x - m.value| ≤ |x - y|
  even : ∀ (other : Double) (y : ℚ), (Number.real other).value? = some y → |x - m.value| = |x - y| →
    y = m.value ∨ m.significand % 2 = 0

theorem one_pos_rat : (0 : ℚ) < one :=
  Nat.cast_pos.mpr one_pos

theorem value_nonneg (m : Magnitude) : 0 ≤ m.value :=
  div_nonneg (Nat.cast_nonneg _) one_pos_rat.le

theorem abs_sub_eq_distance {n d : Nat} (hd : 0 < d) (k : Nat) :
    |(n : ℚ) / (d * one) - k / one| = distance n d k / (d * one) := by
  have hdq : (0 : ℚ) < d := Nat.cast_pos.mpr hd
  have hdiff : (n : ℚ) / (d * one) - k / one = ((n : Int) - (k * d : Nat) : Int) / (d * one) := by
    rw [Int.cast_sub, Int.cast_natCast, Int.cast_natCast, sub_div, Nat.cast_mul, mul_comm (k : ℚ),
      mul_div_mul_left _ _ hdq.ne']
  rw [hdiff, abs_div, abs_of_pos (mul_pos hdq one_pos_rat), distance, Nat.cast_natAbs, Int.cast_abs]

/-- It is enough to compare with the doubles that are not negative, for a number that is not. -/
theorem isNearest_of_magnitudes {m : Magnitude} {x : ℚ} (hx : 0 ≤ x)
    (h : ∀ other : Magnitude, |x - m.value| ≤ |x - other.value| ∧
      (|x - m.value| = |x - other.value| → other = m ∨ m.significand % 2 = 0)) : m.IsNearest x := by
  have hsigned : ∀ (other : Double) (y : ℚ), (Number.real other).value? = some y →
      ∃ magnitude : Magnitude, |x - magnitude.value| ≤ |x - y| ∧
        (|x - magnitude.value| = |x - y| → y = magnitude.value ∨ x = 0) := by
    intro other y hy
    rcases other with _ | _ | ⟨negative, magnitude⟩
    · cases hy
    · cases hy
    refine ⟨magnitude, ?_⟩
    cases negative with
    | false =>
      obtain rfl : magnitude.value = y := Option.some.inj hy
      exact ⟨le_refl _, fun _ => .inl rfl⟩
    | true =>
      obtain rfl : -magnitude.value = y := Option.some.inj hy
      have hvalue := magnitude.value_nonneg
      have hsum : |x - -magnitude.value| = x + magnitude.value := by
        rw [sub_neg_eq_add, abs_of_nonneg (by linarith)]
      rw [hsum]
      refine ⟨abs_le.mpr ⟨by linarith, by linarith⟩, fun heq => ?_⟩
      rcases abs_cases (x - magnitude.value) with ⟨habs, -⟩ | ⟨habs, -⟩
      · exact .inl (by linarith)
      · exact .inr (by linarith)
  refine ⟨fun other y hy => ?_, fun other y hy heq => ?_⟩
  · obtain ⟨magnitude, hle, -⟩ := hsigned other y hy
    exact (h magnitude).1.trans hle
  · obtain ⟨magnitude, hle, htie⟩ := hsigned other y hy
    have hsame := le_antisymm (h magnitude).1 (hle.trans heq.symm.le)
    rcases (h magnitude).2 hsame with rfl | heven
    · rcases htie heq with hvalue | rfl
      · exact .inl hvalue
      · -- Zero is a double itself, so that the nearest one and the other one are both zero.
        have hzero : (zero.value : ℚ) = 0 := by rw [value, zero, Nat.cast_zero, zero_div]
        have hle := (h zero).1
        rw [hzero, sub_zero, abs_zero] at hle
        have hvalue := abs_nonpos_iff.mp hle
        have hy := abs_nonpos_iff.mp (heq ▸ hle)
        exact .inl (by linarith)
    · exact .inr heven

/-- **A quotient that is in range is rounded to the nearest double.** -/
theorem isNearest_of_round? {n d : Nat} (hd : 0 < d) {m : Magnitude} (h : round? n d = some m) :
    m.IsNearest (n / (d * one)) := by
  have hunits : m.units = roundUnits n d := by
    unfold round? at h
    split at h
    · rw [← Option.some.inj h]
    · cases h
  have hscale : (0 : ℚ) < d * one := mul_pos (Nat.cast_pos.mpr hd) one_pos_rat
  refine isNearest_of_magnitudes (div_nonneg (Nat.cast_nonneg _) hscale.le) fun other => ?_
  obtain ⟨hle, htie⟩ := roundUnits_nearest hd other
  rw [← hunits] at hle htie
  rw [value, value, abs_sub_eq_distance hd, abs_sub_eq_distance hd]
  refine ⟨div_le_div_of_nonneg_right (Nat.cast_le.mpr hle) hscale.le, fun heq => ?_⟩
  have hsame : distance n d m.units = distance n d other.units :=
    Nat.cast_injective ((div_left_inj' hscale.ne').mp heq)
  exact (htie hsame).imp_left fun hother => by
    cases m
    cases other
    simpa using hother

end Magnitude
end Formulary
