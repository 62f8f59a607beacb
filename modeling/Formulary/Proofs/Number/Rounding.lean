/-
# Rounding is exact where it can be

Rounding a quotient sees the quotient alone, not how it is written (`round?_mul_right`), so a decimal
may be scaled by powers of ten. A magnitude rounds to itself (`round?_units`), a whole number rounds
to a whole number (`isWhole_of_ofDecimal?`), and everything below half a step over the greatest
double stays in range, and nothing else does (`isSome_round?_iff`).

Key definition: `Number.ceiling`.
Key theorems: `Magnitude.ofDecimal?_scaled`, `Magnitude.round?_units`,
`Magnitude.isWhole_of_ofDecimal?`, `Magnitude.ofDecimal?_floor`,
`Magnitude.isSome_round?_iff`.
-/
import Formulary.Number.Double

namespace Formulary

/-! Powers of natural numbers are the plain ones, also where more general powers are at hand. -/
attribute [local instance (1100)] instPowNat

/-! ### The quotient alone counts -/

theorem roundDiv_mul_right (n d : Nat) {c : Nat} (hc : 0 < c) :
    roundDiv (n * c) (d * c) = roundDiv n d := by
  have hmod : 2 * (n * c % (d * c)) = 2 * (n % d) * c := by
    rw [Nat.mul_mod_mul_right, Nat.mul_assoc]
  unfold roundDiv
  rw [hmod, Nat.mul_div_mul_right _ _ hc]
  simp only [Nat.mul_lt_mul_right hc]

/-- A multiple of the divisor has nothing to round. -/
theorem roundDiv_mul_self (k : Nat) {d : Nat} (hd : 0 < d) : roundDiv (k * d) d = k := by
  unfold roundDiv
  rw [Nat.mul_mod_left, Nat.mul_zero, if_pos hd, Nat.mul_div_cancel _ hd]

/-- Below half a step over `k` nothing rounds up beyond `k`. -/
theorem roundDiv_le_of_lt {n d k : Nat} (h : 2 * n < (2 * k + 1) * d) : roundDiv n d ≤ k := by
  have hd : 0 < d := by
    rcases Nat.eq_zero_or_pos d with rfl | hd
    · simp at h
    · exact hd
  have hn := Nat.div_add_mod n d
  have hq : n / d < k + 1 := by
    rw [Nat.div_lt_iff_lt_mul hd]
    have : (2 * k + 1) * d ≤ 2 * ((k + 1) * d) := by
      rw [← Nat.mul_assoc]
      exact Nat.mul_le_mul_right d (by omega)
    omega
  rcases Nat.lt_or_eq_of_le (Nat.le_of_lt_succ hq) with hlt | heq
  · exact Nat.le_trans (roundDiv_le n d) hlt
  · have hr : 2 * (n % d) < d := by
      rw [heq] at hn
      have : (2 * k + 1) * d = 2 * (d * k) + d := by
        rw [Nat.add_mul, Nat.one_mul, Nat.mul_assoc, Nat.mul_comm k d]
      omega
    unfold roundDiv
    rw [if_pos hr]
    exact Nat.le_of_eq heq

theorem le_roundDiv (n d : Nat) : n / d ≤ roundDiv n d := by
  unfold roundDiv
  split
  · exact Nat.le_refl _
  · split
    · exact Nat.le_succ _
    · split
      · exact Nat.le_refl _
      · exact Nat.le_succ _

/-- From half a step over an odd number on everything rounds up. -/
theorem le_roundDiv_of_le {n d k : Nat} (hd : 0 < d) (hk : k % 2 = 1)
    (h : (2 * k + 1) * d ≤ 2 * n) : k + 1 ≤ roundDiv n d := by
  have hn := Nat.div_add_mod n d
  have hr := Nat.mod_lt n hd
  rcases Nat.lt_or_ge k (n / d) with hlt | hle
  · exact Nat.le_trans hlt (le_roundDiv n d)
  · have hq : n / d = k := by
      refine Nat.le_antisymm hle (Nat.le_of_not_lt fun hlt => ?_)
      have hmul : d * (n / d) + d ≤ d * k := by
        rw [← Nat.mul_succ]
        exact Nat.mul_le_mul_left d hlt
      rw [Nat.add_mul, Nat.one_mul, Nat.mul_assoc, Nat.mul_comm k d] at h
      omega
    rw [hq] at hn
    rw [Nat.add_mul, Nat.one_mul, Nat.mul_assoc, Nat.mul_comm k d] at h
    unfold roundDiv
    rw [if_neg (by omega), hq]
    split
    · exact Nat.le_refl _
    · exact Nat.le_of_eq (if_neg (by omega)).symm

namespace Magnitude

theorem roundUnits_mul_right (n d : Nat) {c : Nat} (hc : 0 < c) :
    roundUnits (n * c) (d * c) = roundUnits n d := by
  unfold roundUnits
  rw [Nat.mul_div_mul_right _ _ hc, Nat.mul_right_comm d c, roundDiv_mul_right _ _ hc]

/-- Rounding sees the quotient alone. -/
theorem round?_mul_right (n d : Nat) {c : Nat} (hc : 0 < c) :
    round? (n * c) (d * c) = round? n d := by
  unfold round?
  simp only [roundUnits_mul_right n d hc]

/-- Ten to a power in the digits is as good as in the exponent. -/
theorem ofDecimal?_scaled (digits t : Nat) (exponent : Int) :
    ofDecimal? (digits * 10 ^ t) exponent = ofDecimal? digits (exponent + t) := by
  -- Both quotients are brought to the larger numerator and the larger denominator.
  obtain ⟨a, b, ha, hb, hab⟩ : ∃ a b : Nat,
      t + exponent.toNat = (exponent + t).toNat + a ∧
        (-exponent).toNat = (-(exponent + t)).toNat + b ∧ a = b :=
    ⟨t + exponent.toNat - (exponent + t).toNat, (-exponent).toNat - (-(exponent + t)).toNat,
      by omega, by omega, by omega⟩
  subst hab
  unfold ofDecimal?
  have hnum : digits * 10 ^ t * 10 ^ exponent.toNat * one =
      digits * 10 ^ (exponent + t).toNat * one * 10 ^ a := by
    rw [Nat.mul_assoc digits, ← Nat.pow_add, ha, Nat.pow_add, ← Nat.mul_assoc,
      Nat.mul_right_comm]
  rw [hnum, hb, Nat.pow_add, round?_mul_right _ _ (Nat.pow_pos (by decide))]

/-! ### Exact values -/

theorem roundUnits_one {u : Nat} (h : 2 ^ (u.log2 - 52) ∣ u) : roundUnits u 1 = u := by
  obtain ⟨k, hk⟩ := h
  unfold roundUnits
  rw [Nat.div_one, Nat.one_mul]
  generalize u.log2 - 52 = e at hk ⊢
  rw [hk, Nat.mul_comm (2 ^ e) k, roundDiv_mul_self k (Nat.two_pow_pos e)]

/-- A magnitude rounds to itself. -/
theorem round?_units (m : Magnitude) : round? m.units 1 = some m := by
  have h := roundUnits_one m.precise
  unfold round?
  rw [dif_pos (by rw [h]; exact m.bounded)]
  simp only [h]

theorem units_of_ofDecimal? {digits : Nat} {exponent : Int} {m : Magnitude}
    (h : ofDecimal? digits exponent = some m) :
    m.units = roundUnits (digits * 10 ^ exponent.toNat * one) (10 ^ (-exponent).toNat) := by
  unfold ofDecimal? round? at h
  split at h
  · rw [← Option.some.inj h]
  · cases h

/-- Zero is zero, whatever its exponent. -/
theorem ofDecimal?_zero (e e' : Int) : ofDecimal? 0 e = ofDecimal? 0 e' := by
  have h (d : Nat) : roundUnits 0 d = 0 := by
    have hlog : (0 / d).log2 - 52 = 0 := by simp
    unfold roundUnits
    rw [hlog]
    simp [roundDiv]
  unfold ofDecimal? round?
  simp only [Nat.zero_mul, h]

/-! ### Whole numbers -/

/-- A whole number of units of one stays one when it is rounded: steps of more than one are
multiples of one, and smaller ones leave the number as it is. -/
theorem one_dvd_roundUnits (n : Nat) : one ∣ roundUnits (n * one) 1 := by
  unfold roundUnits
  rw [Nat.div_one, Nat.one_mul]
  generalize (n * one).log2 - 52 = e
  rcases Nat.le_total e unitBits with h | h
  · obtain ⟨r, hr⟩ := Nat.exists_eq_add_of_le h
    have hone : n * one = n * 2 ^ r * 2 ^ e := by
      unfold one
      rw [hr, Nat.pow_add, Nat.mul_comm (2 ^ e), Nat.mul_assoc]
    rw [hone, roundDiv_mul_self _ (Nat.two_pow_pos e), ← hone]
    exact Nat.dvd_mul_left _ _
  · exact Nat.dvd_trans (Nat.pow_dvd_pow 2 h) (Nat.dvd_mul_left _ _)

/-- A number without places behind the point is rounded to a whole number. -/
theorem isWhole_of_ofDecimal? {digits : Nat} {exponent : Int} {m : Magnitude} (he : 0 ≤ exponent)
    (h : ofDecimal? digits exponent = some m) : m.isWhole = true := by
  have hneg : (-exponent).toNat = 0 := by omega
  have hm := units_of_ofDecimal? h
  rw [hneg, Nat.pow_zero] at hm
  unfold isWhole
  rw [hm, decide_eq_true_eq]
  exact Nat.mod_eq_zero_of_dvd (one_dvd_roundUnits _)

theorem one_pos : 0 < one :=
  Nat.two_pow_pos unitBits

theorem floor_mul_one {m : Magnitude} (h : m.isWhole = true) : m.floor * one = m.units := by
  unfold isWhole at h
  exact Nat.div_mul_cancel (Nat.dvd_of_mod_eq_zero (of_decide_eq_true h))

theorem ofDecimal?_natural (n : Nat) : ofDecimal? n 0 = round? (n * one) 1 := by
  unfold ofDecimal?
  simp

/-- A whole magnitude is the number of its whole part. -/
theorem ofDecimal?_floor {m : Magnitude} (h : m.isWhole = true) :
    ofDecimal? m.floor 0 = some m := by
  rw [ofDecimal?_natural, floor_mul_one h, round?_units]

end Magnitude

/-! ### The range of doubles -/

/-- Finite doubles are below `2 ^ 1024`. -/
def rangeBits : Nat := 1024

/-- Half the step between the greatest doubles is `2 ^ 970`. -/
def halfStepBits : Nat := 970

/-- The least number that is no finite double any more after rounding, `2 ^ 1024 - 2 ^ 970`. -/
def Number.ceiling : Nat := 2 ^ rangeBits - 2 ^ halfStepBits

namespace Magnitude

/-- The bits behind the leading 54 of the ceiling, which is `(2 ^ 54 - 1) * 2 ^ 2044` units. -/
def tailBits : Nat := 2044

theorem sub_mul_two_pow {a b c d e : Nat} (htop : a + c = d + e) (hlow : b + c = e) :
    (2 ^ a - 2 ^ b) * 2 ^ c = (2 ^ d - 1) * 2 ^ e := by
  rw [Nat.sub_mul, Nat.sub_mul, ← Nat.pow_add, ← Nat.pow_add, ← Nat.pow_add, Nat.one_mul, htop, hlow]

theorem ceiling_mul_one :
    Number.ceiling * one = (2 ^ (54 : Nat) - 1) * 2 ^ tailBits := by
  have htop : rangeBits + unitBits = 54 + tailBits := rfl
  have hlow : halfStepBits + unitBits = tailBits := rfl
  unfold Number.ceiling one
  rw [sub_mul_two_pow htop hlow]

/-- What is less than half a step below `2 ^ (54 + t)` is not rounded up to it. -/
theorem roundUnits_lt_of_lt {n d t : Nat} (h : n < (2 ^ (54 : Nat) - 1) * 2 ^ t * d) :
    roundUnits n d < 2 ^ (54 + t) := by
  have hd : 0 < d := Nat.pos_of_ne_zero fun hzero => by simp [hzero] at h
  have htop : n / d < 2 ^ (54 + t) := by
    rw [Nat.pow_add]
    refine Nat.lt_of_lt_of_le ((Nat.div_lt_iff_lt_mul hd).mpr h) ?_
    exact Nat.mul_le_mul_right _ (Nat.sub_le _ _)
  have hlog : (n / d).log2 < 54 + t := by
    rcases Nat.eq_zero_or_pos (n / d) with hzero | hpos
    · rw [hzero, Nat.log2_zero]
      omega
    · exact (Nat.log2_lt (Nat.ne_of_gt hpos)).mpr htop
  have hbound := roundDiv_le_two_pow n d
  unfold roundUnits
  rcases Nat.lt_or_ge (n / d).log2 (53 + t) with hlow | hhigh
  · -- The number has a binary place to spare.
    calc roundDiv n (d * 2 ^ ((n / d).log2 - 52)) * 2 ^ ((n / d).log2 - 52)
        ≤ 2 ^ 53 * 2 ^ ((n / d).log2 - 52) := Nat.mul_le_mul_right _ hbound
      _ = 2 ^ (53 + ((n / d).log2 - 52)) := (Nat.pow_add 2 53 _).symm
      _ < 2 ^ (54 + t) := Nat.pow_lt_pow_right (by decide) (by omega)
  · -- Steps are `2 ^ (t + 1)` up here, and the greatest precise number is `2 ^ 53 - 1` of them.
    have he : (n / d).log2 - 52 = t + 1 := by omega
    have hle : roundDiv n (d * 2 ^ (t + 1)) ≤ 2 ^ 53 - 1 := by
      apply roundDiv_le_of_lt
      calc 2 * n < 2 * ((2 ^ (54 : Nat) - 1) * 2 ^ t * d) := by omega
        _ = (2 ^ (54 : Nat) - 1) * (d * 2 ^ (t + 1)) := by
          rw [Nat.mul_assoc, Nat.mul_left_comm, Nat.mul_comm (2 ^ t) d, Nat.mul_left_comm 2 d,
            ← Nat.pow_succ']
        _ = (2 * (2 ^ 53 - 1) + 1) * (d * 2 ^ (t + 1)) := rfl
    rw [he]
    calc roundDiv n (d * 2 ^ (t + 1)) * 2 ^ (t + 1)
        ≤ (2 ^ 53 - 1) * 2 ^ (t + 1) := Nat.mul_le_mul_right _ hle
      _ < 2 ^ 53 * 2 ^ (t + 1) := Nat.mul_lt_mul_of_pos_right (by decide) (Nat.two_pow_pos _)
      _ = 2 ^ (54 + t) := by rw [← Nat.pow_add, Nat.add_comm t 1, ← Nat.add_assoc]

/-- What rounds to less than `2 ^ (54 + t)` is more than half a step below it. -/
theorem lt_of_roundUnits_lt {n d t : Nat} (hd : 0 < d) (h : roundUnits n d < 2 ^ (54 + t)) :
    n < (2 ^ (54 : Nat) - 1) * 2 ^ t * d := by
  refine Nat.lt_of_not_le fun hge => ?_
  have hfloor : (2 ^ (54 : Nat) - 1) * 2 ^ t ≤ n / d := (Nat.le_div_iff_mul_le hd).mpr hge
  have hlow : 2 ^ (53 + t) ≤ n / d := by
    rw [Nat.pow_add]
    exact Nat.le_trans (Nat.mul_le_mul_right _ (by decide)) hfloor
  have hpos : n / d ≠ 0 := Nat.ne_of_gt (Nat.lt_of_lt_of_le (Nat.two_pow_pos _) hlow)
  have hlog : 53 + t ≤ (n / d).log2 := (Nat.le_log2 hpos).mpr hlow
  refine Nat.not_lt.mpr ?_ h
  unfold roundUnits
  rcases Nat.eq_or_lt_of_le hlog with heq | hlt
  · -- Steps are `2 ^ (t + 1)`, and the number is at least half of one below `2 ^ 53` of them.
    have he : (n / d).log2 - 52 = t + 1 := by omega
    have hround : 2 ^ 53 - 1 + 1 ≤ roundDiv n (d * 2 ^ (t + 1)) := by
      refine le_roundDiv_of_le (Nat.mul_pos hd (Nat.two_pow_pos _)) (by decide) ?_
      calc (2 * (2 ^ 53 - 1) + 1) * (d * 2 ^ (t + 1))
          = (2 ^ (54 : Nat) - 1) * (d * 2 ^ (t + 1)) := rfl
        _ = 2 * ((2 ^ (54 : Nat) - 1) * 2 ^ t * d) := by
          rw [Nat.mul_assoc, Nat.mul_left_comm 2, Nat.mul_comm (2 ^ t) d, Nat.mul_left_comm 2 d,
            ← Nat.pow_succ']
        _ ≤ 2 * n := Nat.mul_le_mul_left 2 hge
    rw [he]
    calc 2 ^ (54 + t) = 2 ^ 53 * 2 ^ (t + 1) := by
          rw [← Nat.pow_add, Nat.add_comm t 1, ← Nat.add_assoc]
      _ ≤ roundDiv n (d * 2 ^ (t + 1)) * 2 ^ (t + 1) := Nat.mul_le_mul_right _ hround
  · have hdiv : 2 ^ 52 ≤ n / (d * 2 ^ ((n / d).log2 - 52)) := by
      rw [← Nat.div_div_eq_div_mul, Nat.le_div_iff_mul_le (Nat.two_pow_pos _), ← Nat.pow_add,
        show 52 + ((n / d).log2 - 52) = (n / d).log2 by omega]
      exact Nat.log2_self_le hpos
    calc 2 ^ (54 + t) ≤ 2 ^ (52 + ((n / d).log2 - 52)) :=
          Nat.pow_le_pow_right (by decide) (by omega)
      _ = 2 ^ 52 * 2 ^ ((n / d).log2 - 52) := Nat.pow_add 2 52 _
      _ ≤ roundDiv n (d * 2 ^ ((n / d).log2 - 52)) * 2 ^ ((n / d).log2 - 52) :=
          Nat.mul_le_mul_right _ (Nat.le_trans hdiv (le_roundDiv _ _))

/-- **Below the ceiling, and only there, quotients of units stay in range when they are rounded.** -/
theorem roundUnits_lt_iff {n d : Nat} (hd : 0 < d) :
    roundUnits n d < 2 ^ topBits ↔ n < Number.ceiling * one * d := by
  have htop : topBits = 54 + tailBits := rfl
  rw [ceiling_mul_one, htop]
  exact ⟨lt_of_roundUnits_lt hd, roundUnits_lt_of_lt⟩

theorem isSome_round?_iff {n d : Nat} (hd : 0 < d) :
    (round? n d).isSome = true ↔ n < Number.ceiling * one * d := by
  rw [← roundUnits_lt_iff hd]
  unfold round?
  split
  · next h => exact iff_of_true rfl h
  · next h => exact iff_of_false Bool.false_ne_true h

theorem isSome_ofDecimal?_iff {n : Nat} : (ofDecimal? n 0).isSome = true ↔ n < Number.ceiling := by
  rw [ofDecimal?_natural, isSome_round?_iff Nat.one_pos, Nat.mul_one, Nat.mul_lt_mul_right one_pos]

/-- A magnitude is below the ceiling. -/
theorem units_lt_ceiling (m : Magnitude) : m.units < Number.ceiling * one := by
  have hsome := isSome_round?_iff (n := m.units) Nat.one_pos
  rw [round?_units, Nat.mul_one] at hsome
  exact hsome.mp rfl

end Magnitude
end Formulary
