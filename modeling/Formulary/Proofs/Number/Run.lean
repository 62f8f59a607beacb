/-
# Runs of digits and points

A run of digits and points is a numeral if its digits are decimal digits, of whatever scripts, and it has
at most one point. It is in range if what it denotes is below the ceiling (`numberPiece_of_isDecimal`,
`numberPiece_of_not`). Then it denotes the integer that it is, or if it has a point the nearest double
(`denotes_of_numberPiece`).

The literal is read once more when a node is made of it, by the readers for free literals, which know
blanks, signs, underscores, exponents and words. A run has none of these, so that they read the same number
(`Number.ofLiteral_of_numberPiece`).

Key definitions: `IsDecimal`, `decimalOf`, `Number.Denotes`.
Key theorems: `Numeral.ofText?_of_isDecimal`, `numberPiece_of_isDecimal`, `denotes_of_numberPiece`,
`Number.ofLiteral_of_numberPiece`.
-/
import Mathlib.Data.Nat.Digits.Defs
import Formulary.Number.Literal
import Formulary.Proofs.Number.Nearest
import Formulary.Proofs.Text.Classes

namespace Formulary

/-! ### Decimals -/

/-- The values of the decimal digits of a text. -/
def Text.decimalDigits (cs : List Char) : List Nat :=
  cs.filterMap Text.decimalValue?

/-- The decimal digits of a text as one number. -/
def Text.natOfDigits (cs : List Char) : Nat :=
  Nat.ofDigits 10 (Text.decimalDigits cs).reverse

/-- Whether the digits in a run of digits and points are decimal digits, and there is at most one point. -/
structure IsDecimal (run : List Char) : Prop where
  digits : ∀ c ∈ run, c ≠ '.' → (Text.decimalValue? c).isSome = true
  point : run.count '.' ≤ 1

theorem isDecimal_iff {run : List Char} : IsDecimal run ↔
    run.all (fun c => c = '.' || (Text.decimalValue? c).isSome) = true ∧ run.count '.' ≤ 1 := by
  simp only [List.all_eq_true, Bool.or_eq_true, decide_eq_true_eq, or_iff_not_imp_left]
  exact ⟨fun h => ⟨h.1, h.2⟩, fun h => ⟨h.1, h.2⟩⟩

instance (run : List Char) : Decidable (IsDecimal run) :=
  decidable_of_iff' _ isDecimal_iff

/-- The number of characters behind the point. -/
def placesOf (run : List Char) : Nat :=
  (run.dropWhile (· ≠ '.')).length - 1

/-- The number that a decimal denotes. -/
def decimalOf (run : List Char) : ℚ :=
  Text.natOfDigits run / 10 ^ placesOf run

theorem Text.length_decimalDigits {cs : List Char}
    (h : ∀ c ∈ cs, (Text.decimalValue? c).isSome = true) :
    (Text.decimalDigits cs).length = cs.length := by
  induction cs with
  | nil => rfl
  | cons c cs ih =>
    obtain ⟨v, hv⟩ := Option.isSome_iff_exists.mp (h c List.mem_cons_self)
    have hrest := ih fun d hd => h d (List.mem_cons_of_mem c hd)
    rw [Text.decimalDigits, List.filterMap_cons_some hv, List.length_cons, List.length_cons]
    exact congrArg _ hrest

theorem Text.natOfDigits_cons {c : Char} {cs : List Char} {v : Nat} (hv : Text.decimalValue? c = some v)
    (h : ∀ d ∈ cs, (Text.decimalValue? d).isSome = true) :
    Text.natOfDigits (c :: cs) = v * 10 ^ cs.length + Text.natOfDigits cs := by
  rw [Text.natOfDigits, Text.decimalDigits, List.filterMap_cons_some hv, List.reverse_cons,
    Nat.ofDigits_append, Nat.ofDigits_singleton, List.length_reverse,
    show (cs.filterMap Text.decimalValue?).length = cs.length from Text.length_decimalDigits h,
    Nat.add_comm, Nat.mul_comm]
  rfl

namespace Numeral

/-- Decimal digits are read as one number. -/
theorem readDigits?_of_isSome : ∀ {cs : List Char} (sofar : Nat),
    (∀ c ∈ cs, (Text.decimalValue? c).isSome = true) →
    readDigits? sofar cs = some (sofar * 10 ^ cs.length + Text.natOfDigits cs)
  | [], sofar, _ => by simp [readDigits?, Text.natOfDigits, Text.decimalDigits]
  | c :: cs, sofar, h => by
    obtain ⟨v, hv⟩ := Option.isSome_iff_exists.mp (h c List.mem_cons_self)
    have hrest := fun d hd => h d (List.mem_cons_of_mem c hd)
    have hread : readDigits? sofar (c :: cs) = readDigits? (sofar * 10 + v) cs := by
      rw [readDigits?, hv]
      rfl
    rw [hread, readDigits?_of_isSome _ hrest, Text.natOfDigits_cons hv hrest, List.length_cons,
      Nat.pow_succ', Nat.add_mul, Nat.mul_assoc, Nat.add_assoc]

theorem isSome_of_readDigits? : ∀ {cs : List Char} {sofar value : Nat},
    readDigits? sofar cs = some value → ∀ c ∈ cs, (Text.decimalValue? c).isSome = true
  | [], _, _, _ => by simp
  | c :: cs, sofar, value, h => by
    rw [readDigits?] at h
    cases hv : Text.decimalValue? c with
    | none =>
      rw [hv] at h
      cases h
    | some v =>
      rw [hv] at h
      have hrest := isSome_of_readDigits? h
      intro d hd
      rcases List.mem_cons.mp hd with rfl | hd
      · rw [hv]
        rfl
      · exact hrest d hd

end Numeral

theorem Text.decimalValue?_point : Text.decimalValue? '.' = none := by decide

/-- A text with a point, before and behind its first point. -/
theorem takeWhile_point_of_not_mem {whole : List Char} (h : '.' ∉ whole) (fraction : List Char) :
    (whole ++ '.' :: fraction).takeWhile (· ≠ '.') = whole ∧
      (whole ++ '.' :: fraction).dropWhile (· ≠ '.') = '.' :: fraction := by
  have hwhole : ∀ c ∈ whole, decide (c ≠ '.') = true := fun c hc => by
    rw [decide_eq_true_eq]
    rintro rfl
    exact h hc
  rw [List.takeWhile_append_of_pos hwhole, List.dropWhile_append_of_pos hwhole,
    List.takeWhile_cons_of_neg (by simp), List.dropWhile_cons_of_neg (by simp), List.append_nil]
  exact ⟨rfl, rfl⟩

theorem takeWhile_of_no_point {run : List Char} (h : '.' ∉ run) :
    run.takeWhile (· ≠ '.') = run ∧ run.dropWhile (· ≠ '.') = [] := by
  have hrun : ∀ c ∈ run, decide (c ≠ '.') = true := fun c hc => by
    rw [decide_eq_true_eq]
    rintro rfl
    exact h hc
  exact ⟨List.takeWhile_eq_self_iff.mpr hrun, List.dropWhile_eq_nil_iff.mpr hrun⟩

namespace Numeral

/-- A text without a point is read as its digits. -/
theorem ofText?_of_no_point {run : List Char} (h : '.' ∉ run) (hne : run ≠ []) :
    ofText? run = (readDigits? 0 run).map (⟨·, none⟩) := by
  obtain ⟨htake, hdrop⟩ := takeWhile_of_no_point h
  rw [ofText?, hdrop, htake]
  exact if_neg (by simpa using hne)

/-- A text with a point is read as the digits around its first point. -/
theorem ofText?_of_point {whole fraction : List Char} (h : '.' ∉ whole) :
    ofText? (whole ++ '.' :: fraction) =
      if (whole ++ fraction).isEmpty then none
      else (readDigits? 0 (whole ++ fraction)).map (⟨·, some fraction.length⟩) := by
  obtain ⟨htake, hdrop⟩ := takeWhile_point_of_not_mem h fraction
  rw [ofText?, hdrop, htake]

/-- **A decimal is read as a numeral** of its digits and places. -/
theorem ofText?_of_isDecimal {run : List Char} (h : IsDecimal run) (hdigit : ∃ c ∈ run, c ≠ '.') :
    ofText? run =
      some ⟨Text.natOfDigits run, if '.' ∈ run then some (placesOf run) else none⟩ := by
  obtain ⟨digit, hdigit, hne⟩ := hdigit
  by_cases hpoint : '.' ∈ run
  · obtain ⟨whole, fraction, rfl, hwhole⟩ := List.eq_append_cons_of_mem hpoint
    have hcount := h.point
    rw [List.count_append, List.count_cons_self, List.count_eq_zero_of_not_mem hwhole] at hcount
    have hfraction : '.' ∉ fraction := List.count_eq_zero.mp (by omega)
    have hdigits : ∀ c ∈ whole ++ fraction, (Text.decimalValue? c).isSome = true := by
      intro c hc
      refine h.digits c ?_ ?_
      · rcases List.mem_append.mp hc with hc | hc
        · exact List.mem_append_left _ hc
        · exact List.mem_append_right _ (List.mem_cons_of_mem _ hc)
      · rintro rfl
        exact (List.mem_append.mp hc).elim hwhole hfraction
    have hempty : ¬(whole ++ fraction).isEmpty = true := by
      rw [List.isEmpty_iff]
      intro hnil
      obtain ⟨rfl, rfl⟩ := List.append_eq_nil_iff.mp hnil
      exact hne (List.mem_singleton.mp hdigit)
    have hnat : Text.natOfDigits (whole ++ '.' :: fraction) = Text.natOfDigits (whole ++ fraction) := by
      simp [Text.natOfDigits, Text.decimalDigits, Text.decimalValue?_point]
    have hplaces : placesOf (whole ++ '.' :: fraction) = fraction.length := by
      rw [placesOf, (takeWhile_point_of_not_mem hwhole fraction).2, List.length_cons,
        Nat.add_sub_cancel]
    rw [ofText?_of_point hwhole, if_neg hempty, readDigits?_of_isSome 0 hdigits, if_pos hpoint, hnat,
      hplaces, Nat.zero_mul, Nat.zero_add]
    rfl
  · have hdigits : ∀ c ∈ run, (Text.decimalValue? c).isSome = true := fun c hc =>
      h.digits c hc fun heq => hpoint (heq ▸ hc)
    rw [ofText?_of_no_point hpoint (List.ne_nil_of_mem hdigit), readDigits?_of_isSome 0 hdigits,
      if_neg hpoint, Nat.zero_mul, Nat.zero_add]
    rfl

/-- What is read as a numeral is a decimal. -/
theorem isDecimal_of_ofText? {run : List Char} {numeral : Numeral} (h : ofText? run = some numeral) :
    IsDecimal run := by
  by_cases hpoint : '.' ∈ run
  · obtain ⟨whole, fraction, rfl, hwhole⟩ := List.eq_append_cons_of_mem hpoint
    rw [ofText?_of_point hwhole] at h
    split at h
    · cases h
    · obtain ⟨value, hvalue, -⟩ := Option.map_eq_some_iff.mp h
      have hdigits := isSome_of_readDigits? hvalue
      have hfraction : '.' ∉ fraction := fun hmem => by
        have hsome := hdigits '.' (List.mem_append_right _ hmem)
        rw [Text.decimalValue?_point] at hsome
        cases hsome
      refine ⟨fun c hc hne => hdigits c ?_, ?_⟩
      · simpa [hne] using hc
      · rw [List.count_append, List.count_cons_self, List.count_eq_zero_of_not_mem hwhole,
          List.count_eq_zero_of_not_mem hfraction]
  · have hne : run ≠ [] := by
      rintro rfl
      cases h
    rw [ofText?_of_no_point hpoint hne] at h
    obtain ⟨value, hvalue, -⟩ := Option.map_eq_some_iff.mp h
    refine ⟨fun c hc _ => isSome_of_readDigits? hvalue c hc, ?_⟩
    rw [List.count_eq_zero_of_not_mem hpoint]
    exact Nat.zero_le 1

/-! ### The range -/

/-- The number that a numeral stands for. -/
def value (n : Numeral) : ℚ :=
  n.digits / 10 ^ n.places.getD 0

theorem magnitude?_eq_round? (n : Numeral) :
    n.magnitude? = Magnitude.round? (n.digits * Magnitude.one) (10 ^ n.places.getD 0) := by
  have hpos : (-((n.places.getD 0 : Nat) : Int)).toNat = 0 := by omega
  have hneg : (- -((n.places.getD 0 : Nat) : Int)).toNat = n.places.getD 0 := by omega
  rw [magnitude?, Magnitude.ofDecimal?, exponent, hpos, hneg, Nat.pow_zero, Nat.mul_one]

theorem ten_pow_pos (n : Numeral) : 0 < 10 ^ n.places.getD 0 :=
  Nat.pow_pos (by decide)

/-- **A numeral has a double nearest to it if and only if it is below the ceiling.** -/
theorem isSome_magnitude?_iff (n : Numeral) :
    n.magnitude?.isSome = true ↔ n.value < Number.ceiling := by
  have hten : (0 : ℚ) < 10 ^ n.places.getD 0 := by positivity
  rw [magnitude?_eq_round?, Magnitude.isSome_round?_iff n.ten_pow_pos, Nat.mul_right_comm,
    Nat.mul_lt_mul_right Magnitude.one_pos, value, div_lt_iff₀ hten, ← @Nat.cast_lt ℚ, Nat.cast_mul,
    Nat.cast_pow, Nat.cast_ofNat]

/-- The magnitude of a numeral is the nearest double. -/
theorem isNearest_of_magnitude? {n : Numeral} {m : Magnitude} (h : n.magnitude? = some m) :
    m.IsNearest n.value := by
  rw [magnitude?_eq_round?] at h
  have hnearest := Magnitude.isNearest_of_round? n.ten_pow_pos h
  rwa [Nat.cast_mul, mul_div_mul_right _ _ Magnitude.one_pos_rat.ne', Nat.cast_pow,
    Nat.cast_ofNat] at hnearest

/-- The numeral of a decimal stands for what the decimal denotes. -/
theorem value_of_isDecimal {run : List Char} (h : IsDecimal run) (hdigit : ∃ c ∈ run, c ≠ '.') :
    ∃ numeral, ofText? run = some numeral ∧ numeral.digits = Text.natOfDigits run ∧
      numeral.value = decimalOf run ∧ (numeral.places.isSome = true ↔ '.' ∈ run) := by
  refine ⟨_, ofText?_of_isDecimal h hdigit, rfl, ?_, ?_⟩
  · by_cases hpoint : '.' ∈ run
    · rw [value, decimalOf, if_pos hpoint, Option.getD_some]
    · rw [value, decimalOf, if_neg hpoint, Option.getD_none, placesOf,
        (takeWhile_of_no_point hpoint).2, List.length_nil]
  · by_cases hpoint : '.' ∈ run <;> simp [hpoint]

end Numeral

/-! ### What a run is -/

/-- Whether a number is what a decimal denotes: the integer, or with a point the nearest double. -/
structure Number.Denotes (run : List Char) (number : Number) : Prop where
  integer : '.' ∉ run → ∃ n : Nat, number = .integer n ∧ n = decimalOf run
  real : '.' ∈ run → ∃ m, number = .real (.finite false m) ∧ m.IsNearest (decimalOf run)

/-- **A run is a numeral if it is a decimal below the ceiling**, and denotes what the decimal does. -/
theorem numberPiece_of_isDecimal {run : List Char} (h : IsDecimal run) (hdigit : ∃ c ∈ run, c ≠ '.')
    (hlt : decimalOf run < Number.ceiling) :
    ∃ number, numberPiece run = .lexeme (.value (String.ofList run) number) ∧ number.Denotes run := by
  obtain ⟨numeral, hnumeral, hdigits, hvalue, hplaces⟩ := Numeral.value_of_isDecimal h hdigit
  rw [← hvalue, ← Numeral.isSome_magnitude?_iff] at hlt
  obtain ⟨m, hm⟩ := Option.isSome_iff_exists.mp hlt
  refine ⟨_, numberPiece_of_numeral hnumeral (Numeral.toNumber?_of_magnitude? hm), ?_, ?_⟩
  · intro hpoint
    have hnone : numeral.places = none := by
      rw [← Option.not_isSome_iff_eq_none, hplaces]
      exact hpoint
    refine ⟨numeral.digits, if_neg (by simp [hnone]), ?_⟩
    rw [← hvalue, Numeral.value, hnone, Option.getD_none, pow_zero, div_one]
  · intro hpoint
    exact ⟨m, if_pos (hplaces.mpr hpoint), hvalue ▸ Numeral.isNearest_of_magnitude? hm⟩

/-- A decimal from the ceiling on is out of range, and what is no decimal is malformed. -/
theorem numberPiece_of_not {run : List Char} (hdigit : ∃ c ∈ run, c ≠ '.')
    (h : ¬(IsDecimal run ∧ decimalOf run < Number.ceiling)) :
    numberPiece run =
      .dropped (if IsDecimal run then .numberOutOfRange run else .malformedNumber run) := by
  by_cases hdecimal : IsDecimal run
  · obtain ⟨numeral, hnumeral, -, hvalue, -⟩ := Numeral.value_of_isDecimal hdecimal hdigit
    have hnone : numeral.magnitude? = none := by
      rw [← Option.not_isSome_iff_eq_none, Numeral.isSome_magnitude?_iff, hvalue]
      exact fun hlt => h ⟨hdecimal, hlt⟩
    have hpiece : numberPiece run = numeralPiece run numeral.toNumber? := by rw [numberPiece, hnumeral]
    rw [hpiece, Numeral.toNumber?, hnone, if_pos hdecimal]
    rfl
  · have hnone : Numeral.ofText? run = none := by
      rw [Option.eq_none_iff_forall_ne_some]
      exact fun numeral hnumeral => hdecimal (Numeral.isDecimal_of_ofText? hnumeral)
    rw [numberPiece, hnone, if_neg hdecimal]

/-- The number of a numeral is what the decimal denotes. -/
theorem denotes_of_numberPiece {run : List Char} {literal : String} {number : Number}
    (hdigit : ∃ c ∈ run, c ≠ '.') (h : numberPiece run = .lexeme (.value literal number)) :
    number.Denotes run := by
  by_cases haccepted : IsDecimal run ∧ decimalOf run < Number.ceiling
  · obtain ⟨found, hfound, hdenotes⟩ := numberPiece_of_isDecimal haccepted.1 hdigit haccepted.2
    rw [h] at hfound
    cases hfound
    exact hdenotes
  · rw [numberPiece_of_not hdigit haccepted] at h
    cases h

/-! ### Literals that are runs -/

theorem Text.trimBy_of_forall {drops : Char → Bool} {cs : List Char} (h : ∀ c ∈ cs, drops c = false) :
    trimBy drops cs = cs := by
  have hkept : ∀ {ds : List Char}, (∀ c ∈ ds, drops c = false) → ds.dropWhile drops = ds := by
    intro ds hds
    cases ds with
    | nil => rfl
    | cons d ds => exact List.dropWhile_cons_of_neg (by simp [hds d List.mem_cons_self])
  rw [trimBy, hkept h, hkept fun c hc => h c (List.mem_reverse.mp hc), List.reverse_reverse]

theorem withoutUnderscores?_of_not_mem {cs : List Char} (h : '_' ∉ cs) :
    withoutUnderscores? cs = some cs := by
  fun_induction withoutUnderscores? cs with
  | case1 => rfl
  | case2 => exact (h List.mem_cons_self).elim
  | case3 => rfl
  | case4 => exact (h List.mem_cons_self).elim
  | case5 => exact (h (List.mem_cons_of_mem _ List.mem_cons_self)).elim
  | case6 => exact (h (List.mem_cons_of_mem _ List.mem_cons_self)).elim
  | case7 => exact (h (List.mem_cons_of_mem _ List.mem_cons_self)).elim
  | case8 c rest _ _ _ ih =>
    rw [ih fun hmem => h (List.mem_cons_of_mem _ hmem)]
    rfl

section Literal

variable {digit : Char} {cs : List Char} (hdigit : Text.isDigit digit = true)

include hdigit

theorem splitSign_of_digit : splitSign (digit :: cs) = (false, digit :: cs) := by
  have hminus : digit ≠ '-' := ne_of_text_digit hdigit (by decide)
  have hplus : digit ≠ '+' := ne_of_text_digit hdigit (by decide)
  unfold splitSign
  split
  · next heq => exact (hminus (List.cons.inj heq).1).elim
  · next heq => exact (hplus (List.cons.inj heq).1).elim
  · rfl

theorem ofWord?_of_digit (negative : Bool) : Double.ofWord? negative (digit :: cs) = none := by
  have hstart : ∀ {letter : Char} {rest : List Char} {word : String}, 65 ≤ letter.toNat ∧
      letter.toNat ≤ 122 → word.toList = letter :: rest →
      String.ofList ((digit :: cs).map Char.toLower) ≠ word := by
    intro letter rest word hletter hword heq
    rw [← heq, String.toList_ofList, List.map_cons, toLower_of_digit hdigit] at hword
    exact ne_of_letter hdigit hletter (List.cons.inj hword).1
  unfold Double.ofWord?
  split
  · next heq => exact (hstart (by decide) rfl heq).elim
  · next heq => exact (hstart (by decide) rfl heq).elim
  · next heq => exact (hstart (by decide) rfl heq).elim
  · rfl

variable (hcs : ∀ c ∈ cs, continuesNumber c = true)

include hcs

theorem forall_continuesNumber : ∀ c ∈ digit :: cs, continuesNumber c = true := by
  intro c hc
  rcases List.mem_cons.mp hc with rfl | hc
  · rw [continuesNumber, hdigit, Bool.true_or]
  · exact hcs c hc

theorem not_mem_of_continuesNumber {d : Char} (hd : continuesNumber d = false) :
    d ∉ digit :: cs := by
  intro hmem
  rw [forall_continuesNumber hdigit hcs d hmem] at hd
  cases hd

/-- There is nothing around a run or in it that is taken away. -/
theorem withoutUnderscores?_of_run :
    withoutUnderscores? (Text.trimBy Text.isWhiteSpace (digit :: cs)) = some (digit :: cs) := by
  have hspace : ∀ c ∈ digit :: cs, Text.isWhiteSpace c = false := fun c hc => by
    rw [Text.isWhiteSpace, isBlank_of_continuesNumber (forall_continuesNumber hdigit hcs c hc),
      Bool.false_and]
  have hline : '_' ∉ digit :: cs := not_mem_of_continuesNumber hdigit hcs (by decide)
  rw [Text.trimBy_of_forall hspace, withoutUnderscores?_of_not_mem hline]

theorem splitExponent?_of_run : splitExponent? (digit :: cs) = some (digit :: cs, 0) := by
  have hsmall : 'e' ∉ digit :: cs := not_mem_of_continuesNumber hdigit hcs (by decide)
  have hlarge : 'E' ∉ digit :: cs := not_mem_of_continuesNumber hdigit hcs (by decide)
  have hrun : ∀ c ∈ digit :: cs, (decide (c ≠ 'e') && decide (c ≠ 'E')) = true := fun c hc => by
    rw [Bool.and_eq_true, decide_eq_true_eq, decide_eq_true_eq]
    exact ⟨fun heq => hsmall (heq ▸ hc), fun heq => hlarge (heq ▸ hc)⟩
  rw [splitExponent?, List.dropWhile_eq_nil_iff.mpr hrun, List.takeWhile_eq_self_iff.mpr hrun]

/-- **A run is read as a double as it is read as a numeral.** -/
theorem Double.ofText?_of_run : Double.ofText? (digit :: cs) =
    (Numeral.ofText? (digit :: cs)).map fun n => .ofDecimal false n.digits n.exponent := by
  have hreach : ∀ (length : Nat) (exponent : Int),
      max (-((length : Int) + 400)) (min ((length : Int) + 400) 0) + exponent = exponent := by
    intro length exponent
    omega
  rw [Double.ofText?, withoutUnderscores?_of_run hdigit hcs]
  simp only [Option.bind_eq_bind, Option.bind_some, splitSign_of_digit hdigit, ofWord?_of_digit hdigit,
    splitExponent?_of_run hdigit hcs]
  cases Numeral.ofText? (digit :: cs) with
  | none => rfl
  | some numeral =>
    simp only [Option.bind_some, Option.map_some, Double.ofNumeral, hreach]
    rfl

/-- A run is read as an integer as its digits are read. -/
theorem integerOfText?_of_run : integerOfText? (digit :: cs) =
    (Numeral.readDigits? 0 (digit :: cs)).map Int.ofNat := by
  rw [integerOfText?, withoutUnderscores?_of_run hdigit hcs, Option.bind_some, readSigned?,
    splitSign_of_digit hdigit]
  simp only [List.isEmpty_cons, Bool.false_eq_true, if_false]
  cases Numeral.readDigits? 0 (digit :: cs) <;> rfl

end Literal

/-- The number of a numeral, and the numeral that it is of. -/
theorem exists_numeral_of_numberPiece {run : List Char} {literal : String} {number : Number}
    (h : numberPiece run = .lexeme (.value literal number)) : literal = String.ofList run ∧
      ∃ numeral, Numeral.ofText? run = some numeral ∧ numeral.toNumber? = some number := by
  unfold numberPiece at h
  split at h
  · cases h
  · next numeral hnumeral =>
    cases hnumber : numeral.toNumber? with
    | none =>
      rw [hnumber] at h
      cases h
    | some found =>
      rw [hnumber] at h
      cases h
      exact ⟨rfl, numeral, hnumeral, hnumber⟩

theorem Double.ofDecimal_of_magnitude {negative : Bool} {digits : Nat} {exponent : Int} {m : Magnitude}
    (h : Magnitude.ofDecimal? digits exponent = some m) :
    Double.ofDecimal negative digits exponent = .finite negative m := by
  -- The definition is opened as a function; applied, it would be computed up to the bound of magnitudes.
  suffices hfun : ∀ f, f = Double.ofDecimal → f negative digits exponent = .finite negative m from
    hfun _ rfl
  intro f hf
  delta Double.ofDecimal at hf
  rw [hf]
  dsimp only
  rw [h]

/-- **The literal of a number reads as the number**, whichever of the two readers it is given to. -/
theorem Number.ofLiteral_of_numberPiece {run : List Char} {literal : String} {number : Number}
    (hstarts : ∃ c ∈ run.head?, Text.isDigit c = true) (hall : ∀ c ∈ run, continuesNumber c = true)
    (h : numberPiece run = .lexeme (.value literal number)) :
    Number.ofLiteral literal = .ok number := by
  obtain ⟨digit, hhead, hdigit⟩ := hstarts
  obtain ⟨cs, rfl⟩ : ∃ cs, run = digit :: cs := List.head?_eq_some_iff.mp hhead
  have hcs : ∀ c ∈ cs, continuesNumber c = true := fun c hc => hall c (List.mem_cons_of_mem _ hc)
  obtain ⟨rfl, numeral, hnumeral, hnumber⟩ := exists_numeral_of_numberPiece h
  obtain ⟨m, hm, -⟩ := Option.map_eq_some_iff.mp hnumber
  rw [Numeral.toNumber?_of_magnitude? hm, Option.some.injEq] at hnumber
  rw [Numeral.magnitude?] at hm
  subst hnumber
  have hpoint : digit ≠ '.' := by
    rintro rfl
    exact absurd hdigit (by decide)
  have hdecimal := Numeral.isDecimal_of_ofText? hnumeral
  obtain ⟨same, hsame, hdigits, -, hplaces⟩ :=
    Numeral.value_of_isDecimal hdecimal ⟨digit, List.mem_cons_self, hpoint⟩
  obtain rfl := Option.some.inj (hnumeral.symm.trans hsame)
  unfold Number.ofLiteral
  rw [String.toList_ofList]
  by_cases hmem : '.' ∈ digit :: cs
  · have hreal : Double.ofText? (digit :: cs) = some (.finite false m) := by
      rw [Double.ofText?_of_run hdigit hcs, hnumeral, Option.map_some, Double.ofDecimal_of_magnitude hm]
    rw [if_pos (List.contains_iff_mem.mpr hmem), if_pos (hplaces.mpr hmem), hreal]
  · have hisSome : ∀ c ∈ digit :: cs, (Text.decimalValue? c).isSome = true := fun c hc =>
      hdecimal.digits c hc fun heq => hmem (heq ▸ hc)
    have hinteger : integerOfText? (digit :: cs) = some (numeral.digits : Int) := by
      rw [integerOfText?_of_run hdigit hcs, Numeral.readDigits?_of_isSome 0 hisSome, Nat.zero_mul,
        Nat.zero_add, ← hdigits]
      rfl
    rw [if_neg (by simpa using hmem), if_neg (fun hsome => hmem (hplaces.mp hsome)), hinteger]

end Formulary
