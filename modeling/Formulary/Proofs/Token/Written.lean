/-
# Written numbers read back

Every number from zero on that formulas can hold is written as plain digits, at most with a point between
them, and never with a sign or an exponent. The text is one token, and the token stands for a number of the
same value, which is an integer exactly if the value is whole. So the number that comes back may be of
another kind, but it is written with the same text (`Number.scan_numberText`).

Key definition: `IsPositional`.
Key theorems: `Number.isPositional_text`, `Number.exists_integer_settled_iff`, `Number.scan_numberText`.
-/
import Formulary.Proofs.Token.Value

namespace Formulary

/-! Powers of natural numbers are the plain ones, also where more general powers are at hand. -/
attribute [local instance (1100)] instPowNat

/-- Whether a text is digits, or digits around a point. -/
inductive IsPositional : List Char → Prop
  | digits {whole : List Char} (hwhole : AsciiDigits whole) (hne : whole ≠ []) : IsPositional whole
  | point {whole fraction : List Char} (hwhole : AsciiDigits whole) (hne : whole ≠ [])
    (hfraction : AsciiDigits fraction) (hplaces : fraction ≠ []) :
    IsPositional (whole ++ '.' :: fraction)

namespace Number

variable {n : Number} {q : ℚ}

/-- A plain number is written with digits, and a point at most. -/
theorem isPositional_text (h : n.Plain) : IsPositional n.text := by
  obtain ⟨k, htext, -, -⟩ | ⟨m, htext, -, hm⟩ := text_cases h
  · rw [htext]
    exact .digits (asciiDigits_naturalText k) (naturalText_ne_nil k)
  · have hexp := Magnitude.shortest_exponent_neg hm
    obtain ⟨hwhole, hfraction, hne, hlength, -⟩ := parts_spec m.shortest hexp
    have hplaces : m.shortest.parts.2 ≠ [] := by
      rw [← List.length_pos_iff]
      omega
    rw [htext, positional_eq hplaces]
    exact .point hwhole hne hfraction hplaces

/-- The text of a plain number is a run of digits and points that nothing follows. -/
theorem isRun_text (h : n.Plain) : IsRun Text.isDigit continuesNumber n.text [] := by
  obtain ⟨d, ds, htext, hd, hds⟩ := text_shape h
  rw [htext]
  refine ⟨⟨d, rfl, text_isDigit_of_isDigit hd⟩, fun c hc => ?_, fun c hc => by cases hc⟩
  rcases List.mem_cons.mp hc with rfl | hc
  · exact continuesNumber_of_isDigit hd
  · exact hds c hc

/-- A magnitude is a whole number if its value is. -/
theorem isWhole_of_value {m : Magnitude} {i : ℤ} (h : (m.units : ℚ) / Magnitude.one = i) :
    m.isWhole = true := by
  have hone : (Magnitude.one : ℚ) ≠ 0 := Nat.cast_ne_zero.mpr Magnitude.one_pos.ne'
  have hunits : (m.units : ℤ) = i * Magnitude.one := by
    rw [div_eq_iff hone] at h
    exact_mod_cast h
  have hdvd : Magnitude.one ∣ m.units := Int.natCast_dvd_natCast.mp ⟨i, by rw [hunits, mul_comm]⟩
  exact decide_eq_true (Nat.mod_eq_zero_of_dvd hdvd)

/-- **What comes back of a plain number is an integer exactly if the value is whole.** -/
theorem exists_integer_settled_iff (h : n.Plain) (hvalue : n.value? = some q) :
    (∃ i, n.settled = .integer i) ↔ ∃ i : ℤ, q = i := by
  have hsettled : n.settled.value? = some q := (value?_settled n).trans hvalue
  constructor
  · rintro ⟨i, hi⟩
    rw [hi] at hsettled
    exact ⟨i, (Option.some.inj hsettled).symm⟩
  · rintro ⟨i, rfl⟩
    obtain ⟨k, -, hinteger, -⟩ | ⟨m, -, hreal, hm⟩ := text_cases h
    · exact ⟨k, hinteger⟩
    · rw [hreal] at hsettled
      rw [isWhole_of_value (Option.some.inj hsettled)] at hm
      cases hm

/-- Integers from zero up to the ceiling are plain, and so are all finite doubles from zero on. -/
theorem plain_of_nonneg (hvalue : n.value? = some q) (hzero : 0 ≤ q)
    (hceiling : ∀ i, n = .integer i → i < Number.ceiling) : n.Plain := by
  rcases n with i | _ | _ | ⟨negative, m⟩
  · obtain rfl := Option.some.inj hvalue
    exact plain_of_value? rfl hzero (by exact_mod_cast hceiling i rfl)
  · cases hvalue
  · cases hvalue
  · exact plain_finite hvalue hzero

/-- **A written number reads back.** Each integer from zero up to the ceiling, and each finite double that
is not below zero, is written as digits, or as digits around a point. The text is one token and nothing of
it is dropped. The literal reads as a number of the same value, which is an integer exactly if the value is
whole, and which is written with the same text. -/
theorem scan_numberText (hvalue : n.value? = some q) (hzero : 0 ≤ q)
    (hceiling : ∀ i, n = .integer i → i < Number.ceiling) :
    IsPositional (numberText (some n)) ∧ ∃ back,
      Scan.ofText (String.ofList (numberText (some n))) =
        ⟨[⟨.value (String.ofList (numberText (some n))) back, 0⟩], [], (numberText (some n)).length⟩ ∧
      Number.ofLiteral (String.ofList (numberText (some n))) = .ok back ∧
      back.value? = some q ∧
      ((∃ i, back = .integer i) ↔ ∃ i : ℤ, q = i) ∧
      numberText (some back) = numberText (some n) := by
  have hplain := plain_of_nonneg hvalue hzero hceiling
  have hrun := isRun_text hplain
  have hpiece := numberPiece_text hplain
  have hpieces : pieces n.text = [.lexeme (.value (String.ofList n.text) n.settled)] := by
    rw [← List.append_nil n.text, pieces_of_isRun hrun, List.append_nil, hpiece, pieces]
  have hscan : Scan.ofText (String.ofList n.text) =
      ⟨[⟨.value (String.ofList n.text) n.settled, 0⟩], [], n.text.length⟩ := by
    rw [Scan.ofText, String.toList_ofList, hpieces]
    simp [tokensFrom, droppedFrom, finishFrom, Piece.text, Lexeme.spelling]
  exact ⟨isPositional_text hplain, n.settled, hscan,
    ofLiteral_of_numberPiece hrun.starts hrun.all hpiece, (value?_settled n).trans hvalue,
    exists_integer_settled_iff hplain hvalue, text_settled hplain⟩

/-- The double `2 ^ -20`, whose shortest literal has an exponent. -/
def small : Double :=
  .finite false ⟨2 ^ (unitBits - 20), by
    rw [Nat.log2_two_pow]
    exact Nat.pow_dvd_pow 2 (Nat.sub_le _ _), Nat.pow_lt_pow_right (by decide) (by decide)⟩

theorem scan_numberText_small :
    (Number.real small).value? = some (1 / 2 ^ 20) ∧ (0 : ℚ) ≤ 1 / 2 ^ 20 ∧
      (∀ i, Number.real small = .integer i → i < Number.ceiling) ∧
      numberText (some (.real small)) = "0.00000095367431640625".toList ∧
      IsPositional "0.00000095367431640625".toList ∧
      ∃ back, Scan.ofText "0.00000095367431640625" =
          ⟨[⟨.value "0.00000095367431640625" back, 0⟩], [], 22⟩ ∧
        Number.ofLiteral "0.00000095367431640625" = .ok back ∧
        back.value? = some (1 / 2 ^ 20) ∧ (¬∃ i, back = .integer i) ∧
        numberText (some back) = "0.00000095367431640625".toList := by
  have hvalue : (Number.real small).value? = some (1 / 2 ^ 20) := by
    have hone : (2 ^ (unitBits - 20) : ℕ) * 2 ^ 20 = Magnitude.one := by
      rw [Magnitude.one, ← Nat.pow_add, Nat.sub_add_cancel (by decide)]
    refine congrArg some ((div_eq_div_iff Magnitude.one_pos_rat.ne' (by positivity)).mpr ?_)
    rw [one_mul, ← hone, Nat.cast_mul, Nat.cast_pow 2 20, Nat.cast_ofNat]
  have hzero : (0 : ℚ) ≤ 1 / 2 ^ 20 := by positivity
  have hceiling : ∀ i, Number.real small = .integer i → i < Number.ceiling := fun _ h => by cases h
  have htext : numberText (some (.real small)) = "0.00000095367431640625".toList := by decide +kernel
  obtain ⟨hdigits, back, hscan, hliteral, hback, hinteger, hagain⟩ :=
    scan_numberText hvalue hzero hceiling
  rw [htext] at hdigits hscan hliteral hagain
  refine ⟨hvalue, hzero, hceiling, htext, hdigits, back, hscan, hliteral, hback, ?_, hagain⟩
  rw [hinteger]
  rintro ⟨i, hi⟩
  have hi : (1 : ℤ) = i * 2 ^ 20 := by
    rw [div_eq_iff (by positivity)] at hi
    exact_mod_cast hi
  omega

end Number
end Formulary
