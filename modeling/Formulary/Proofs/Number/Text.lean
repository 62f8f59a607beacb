/-
# The text of a number reads back

A number that is not negative and no greater than the finite doubles is written as one plain numeral,
and the numeral reads back as a number of the same value (`numberPiece_text`). It need not be the
same number: a double that is whole is written without a point and comes back as an integer, which is
what `Number.settled` says.

Key definitions: `Number.value?`, `Number.settled`, `Number.Plain`.
Key theorems: `numberPiece_text`, `Number.value?_settled`, `Number.plain_of_value?`.
-/
import Mathlib.Algebra.Order.Field.Rat
import Mathlib.Data.List.TakeWhile
import Mathlib.Data.Rat.Cast.Order
import Mathlib.Tactic.Linarith
import Mathlib.Tactic.Positivity
import Formulary.Number.Notation
import Formulary.Proofs.Number.Shortest
import Formulary.Text.Blank
import Formulary.Token.Piece

namespace Formulary

/-! Powers of natural numbers are the plain ones, also where more general powers are at hand. -/
attribute [local instance (1100)] instPowNat

/-! ### ASCII digits -/

/-- A text of ASCII digits. -/
def AsciiDigits (cs : List Char) : Prop := ∀ c ∈ cs, c.isDigit = true

theorem toNat_of_isDigit {c : Char} (h : c.isDigit = true) : 48 ≤ c.toNat ∧ c.toNat ≤ 57 :=
  Char.isDigit_iff_toNat.mp h

theorem ne_of_isDigit {c d : Char} (h : c.isDigit = true) (hd : d.isDigit = false) : c ≠ d := by
  rintro rfl
  rw [h] at hd
  cases hd

theorem isBlank_of_isDigit {c : Char} (h : c.isDigit = true) : Text.isBlank c = false := by
  obtain ⟨hlow, hhigh⟩ := toNat_of_isDigit h
  simp only [Text.isBlank, Text.blankRanges, Text.covers, Bool.and_eq_false_imp,
    Bool.or_eq_false_iff, decide_eq_true_eq, decide_eq_false_iff_not]
  omega

theorem text_isDigit_of_isDigit {c : Char} (h : c.isDigit = true) : Text.isDigit c = true := by
  obtain ⟨hlow, hhigh⟩ := toNat_of_isDigit h
  simp [Text.isDigit, Text.digitRanges, Text.covers, hlow, hhigh]

theorem decimalValue?_of_isDigit {c : Char} (h : c.isDigit = true) :
    Text.decimalValue? c = some (c.toNat - 48) := by
  obtain ⟨hlow, hhigh⟩ := toNat_of_isDigit h
  have hmod : (c.toNat - 48) % 10 = c.toNat - 48 := Nat.mod_eq_of_lt (by omega)
  unfold Text.decimalValue? Text.decimalRanges Text.offsetIn?
  rw [if_neg (by omega), if_pos hhigh, Option.map_some, hmod]

theorem asciiDigits_naturalText (n : Nat) : AsciiDigits (naturalText n) :=
  fun _ hc => Nat.isDigit_of_mem_toDigits (by decide) (by decide) hc

theorem asciiDigits_append {cs ds : List Char} (hc : AsciiDigits cs) (hd : AsciiDigits ds) :
    AsciiDigits (cs ++ ds) := by
  intro c h
  rcases List.mem_append.mp h with h | h
  · exact hc c h
  · exact hd c h

theorem asciiDigits_zeros (n : Nat) : AsciiDigits (List.replicate n '0') := by
  intro c h
  rw [List.eq_of_mem_replicate h]
  rfl

/-- ASCII digits are read as the number that they write. -/
theorem readDigits?_of_asciiDigits : ∀ {cs : List Char} (sofar : Nat), AsciiDigits cs →
    Numeral.readDigits? sofar cs = some (Nat.ofDigitChars 10 cs sofar)
  | [], sofar, _ => by simp [Numeral.readDigits?]
  | c :: cs, sofar, h => by
    have hc := decimalValue?_of_isDigit (h c List.mem_cons_self)
    have hcs : AsciiDigits cs := fun d hd => h d (List.mem_cons_of_mem c hd)
    have ih := readDigits?_of_asciiDigits (sofar * 10 + (c.toNat - 48)) hcs
    have hzero : '0'.toNat = 48 := rfl
    simp only [Numeral.readDigits?, hc, Option.bind_eq_bind, Option.bind_some, ih,
      Nat.ofDigitChars_cons, hzero, Nat.mul_comm 10]

theorem takeWhile_point {cs : List Char} (h : AsciiDigits cs) (rest : List Char) :
    (cs ++ '.' :: rest).takeWhile (· ≠ '.') = cs := by
  rw [List.takeWhile_append_of_pos, List.takeWhile_cons_of_neg (by simp), List.append_nil]
  intro c hc
  simpa using ne_of_isDigit (h c hc) rfl

theorem dropWhile_point {cs : List Char} (h : AsciiDigits cs) (rest : List Char) :
    (cs ++ '.' :: rest).dropWhile (· ≠ '.') = '.' :: rest := by
  rw [List.dropWhile_append_of_pos, List.dropWhile_cons_of_neg (by simp)]
  intro c hc
  simpa using ne_of_isDigit (h c hc) rfl

theorem forall_ne_point {cs : List Char} (h : AsciiDigits cs) :
    ∀ c ∈ cs, decide (c ≠ '.') = true := by
  intro c hc
  simpa using ne_of_isDigit (h c hc) rfl

/-- Digits alone are a numeral without a point. -/
theorem numeral_of_digits {cs : List Char} (h : AsciiDigits cs) (hne : cs ≠ []) :
    Numeral.ofText? cs = some ⟨Nat.ofDigitChars 10 cs 0, none⟩ := by
  have hdrop := List.dropWhile_eq_nil_iff.mpr (forall_ne_point h)
  have htake := List.takeWhile_append_dropWhile (p := fun c => decide (c ≠ '.')) (l := cs)
  rw [hdrop, List.append_nil] at htake
  have hempty : cs.isEmpty = false := List.isEmpty_eq_false_iff.mpr hne
  unfold Numeral.ofText?
  simp only [htake, hdrop, hempty, readDigits?_of_asciiDigits 0 h, Option.map_some]
  rfl

/-- Digits around a point are a numeral with as many places as digits follow the point. -/
theorem numeral_of_point {whole fraction : List Char} (hw : AsciiDigits whole)
    (hf : AsciiDigits fraction) (hne : whole ≠ []) :
    Numeral.ofText? (whole ++ '.' :: fraction) =
      some ⟨Nat.ofDigitChars 10 (whole ++ fraction) 0, some fraction.length⟩ := by
  have hempty : (whole ++ fraction).isEmpty = false := by
    rw [List.isEmpty_eq_false_iff]
    intro h
    exact hne (List.append_eq_nil_iff.mp h).1
  unfold Numeral.ofText?
  simp only [takeWhile_point hw, dropWhile_point hw, hempty,
    readDigits?_of_asciiDigits 0 (asciiDigits_append hw hf), Option.map_some]
  rfl

/-! ### Positional notation -/

/-- What the two parts of a decimal below its point are: digits that write the decimal, as many of
them behind the point as its exponent says. -/
theorem parts_spec (d : Decimal) (h : d.exponent < 0) :
    AsciiDigits d.parts.1 ∧ AsciiDigits d.parts.2 ∧ d.parts.1 ≠ [] ∧
      d.parts.2.length = (-d.exponent).toNat ∧
      Nat.ofDigitChars 10 (d.parts.1 ++ d.parts.2) 0 = d.digits := by
  have hdigits := asciiDigits_naturalText d.digits
  have hlen : (naturalText d.digits).length ≠ 0 := by
    rw [Ne, List.length_eq_zero_iff]
    exact Nat.toDigits_ne_nil
  have hvalue : Nat.ofDigitChars 10 (naturalText d.digits) 0 = d.digits :=
    Nat.ofDigitChars_ten_toDigits
  have hpoint : d.pointPlace = (naturalText d.digits).length + d.exponent := rfl
  unfold Decimal.parts
  by_cases hp : d.pointPlace ≤ 0
  · simp only [if_pos hp, List.leftpad, Nat.add_sub_cancel_left]
    refine ⟨asciiDigits_zeros 1, asciiDigits_append (asciiDigits_zeros _) hdigits, by simp, ?_, ?_⟩
    · rw [List.length_append, List.length_replicate]
      omega
    · have hzero : Nat.ofDigitChars 10 ['0'] 0 = 0 := rfl
      rw [Nat.ofDigitChars_append, Nat.ofDigitChars_append, Nat.ofDigitChars_replicate_zero, hzero,
        Nat.mul_zero, hvalue]
  · have hzero : d.exponent.toNat = 0 := by omega
    simp only [if_neg hp, hzero, List.replicate_zero, List.append_nil]
    refine ⟨fun c hc => hdigits c (List.mem_of_mem_take hc),
      fun c hc => hdigits c (List.mem_of_mem_drop hc), ?_, ?_, ?_⟩
    · intro hnil
      rw [List.take_eq_nil_iff, ← List.length_eq_zero_iff] at hnil
      omega
    · rw [List.length_drop]
      omega
    · rw [List.take_append_drop, hvalue]

theorem positional_eq {d : Decimal} (h : d.parts.2 ≠ []) :
    d.positional [] = d.parts.1 ++ '.' :: d.parts.2 := by
  have hempty : d.parts.2.isEmpty = false := List.isEmpty_eq_false_iff.mpr h
  unfold Decimal.positional
  generalize d.parts = parts at hempty
  obtain ⟨whole, fraction⟩ := parts
  exact if_neg (by simp [hempty])

namespace Numeral

theorem magnitude?_mk (digits : Nat) (places : Option Nat) :
    (Numeral.mk digits places).magnitude? = Decimal.magnitude? ⟨digits, -(places.getD 0)⟩ := rfl

/-- A numeral in range denotes an integer without a point, and else the double nearest to it. -/
theorem toNumber?_of_magnitude? {n : Numeral} {m : Magnitude} (h : n.magnitude? = some m) :
    n.toNumber? = some (if n.places.isSome then .real (.finite false m) else .integer n.digits) := by
  unfold toNumber?
  rw [h, Option.map_some]
  cases n.places <;> rfl

end Numeral

theorem numberPiece_of_numeral {cs : List Char} {numeral : Numeral} {number : Number}
    (h : Numeral.ofText? cs = some numeral) (hn : numeral.toNumber? = some number) :
    numberPiece cs = .lexeme (.value (String.ofList cs) number) := by
  unfold numberPiece
  rw [h]
  show numeralPiece cs numeral.toNumber? = _
  rw [hn]
  rfl

/-- A decimal with places behind the point reads back as the double nearest to it. -/
theorem numberPiece_positional {d : Decimal} {m : Magnitude} (h : d.exponent < 0)
    (hm : d.magnitude? = some m) :
    numberPiece (d.positional []) =
      .lexeme (.value (String.ofList (d.positional [])) (.real (.finite false m))) := by
  obtain ⟨hw, hf, hne, hlen, hvalue⟩ := parts_spec d h
  have hfraction : d.parts.2 ≠ [] := by
    rw [← List.length_pos_iff]
    omega
  have hnumeral := numeral_of_point hw hf hne
  rw [hvalue, ← positional_eq hfraction] at hnumeral
  have hexp : -(((some d.parts.2.length).getD 0 : Nat) : Int) = d.exponent := by
    rw [Option.getD_some]
    omega
  have hmagnitude := Numeral.magnitude?_mk d.digits (some d.parts.2.length)
  rw [hexp] at hmagnitude
  exact numberPiece_of_numeral hnumeral
    (Numeral.toNumber?_of_magnitude? (hmagnitude.trans hm))

theorem naturalText_ne_nil (n : Nat) : naturalText n ≠ [] :=
  Nat.toDigits_ne_nil

/-- A natural number in the range of doubles reads back as itself. -/
theorem numberPiece_naturalText {n : Nat} (h : (Magnitude.ofDecimal? n 0).isSome = true) :
    numberPiece (naturalText n) =
      .lexeme (.value (String.ofList (naturalText n)) (.integer n)) := by
  obtain ⟨m, hm⟩ := Option.isSome_iff_exists.mp h
  have hvalue : Nat.ofDigitChars 10 (naturalText n) 0 = n := Nat.ofDigitChars_ten_toDigits
  have hnumeral := numeral_of_digits (asciiDigits_naturalText n) (naturalText_ne_nil n)
  rw [hvalue] at hnumeral
  exact numberPiece_of_numeral hnumeral
    (Numeral.toNumber?_of_magnitude? ((Numeral.magnitude?_mk n none).trans hm))

/-! ### Numbers -/

namespace Number

/-- The value of a number, unless it is infinite or no number at all. -/
def value? : Number → Option ℚ
  | integer n => some n
  | real (.finite negative m) =>
    some (if negative then -((m.units : ℚ) / Magnitude.one) else (m.units : ℚ) / Magnitude.one)
  | real _ => none

/-- The number that comes back when a number is written and read: a whole one as an integer. -/
def settled : Number → Number
  | integer n => integer n
  | real (.finite negative m) =>
    if m.isWhole then integer (if negative then -m.floor else m.floor) else real (.finite negative m)
  | real d => real d

/-- The numbers that a plain numeral can denote. -/
def Plain : Number → Prop
  | integer n => 0 ≤ n ∧ (Magnitude.ofDecimal? n.toNat 0).isSome = true
  | real (.finite negative m) => negative = true → m.units = 0
  | real _ => False

/-- What comes back has the same value. -/
theorem value?_settled (n : Number) : n.settled.value? = n.value? := by
  rcases n with n | _ | _ | ⟨negative, m⟩ <;> try rfl
  unfold settled
  by_cases h : m.isWhole = true
  · have hone : (Magnitude.one : ℚ) ≠ 0 := Nat.cast_ne_zero.mpr (Nat.ne_of_gt Magnitude.one_pos)
    have hfloor : (m.floor : ℚ) = m.units / Magnitude.one := by
      rw [← Magnitude.floor_mul_one h, Nat.cast_mul, mul_div_cancel_right₀ _ hone]
    simp only [if_pos h]
    cases negative with
    | true =>
      show some (((-(m.floor : Int) : Int)) : ℚ) = some (-((m.units : ℚ) / Magnitude.one))
      rw [Int.cast_neg, Int.cast_natCast, hfloor]
    | false =>
      show some (((m.floor : Int)) : ℚ) = some ((m.units : ℚ) / Magnitude.one)
      rw [Int.cast_natCast, hfloor]
  · simp only [if_neg h]

theorem floor_of_units {m : Magnitude} (h : m.units = 0) : m.isWhole = true ∧ m.floor = 0 := by
  simp [Magnitude.isWhole, Magnitude.floor, h]

theorem text_natCast (k : Nat) : (integer k).text = naturalText k := by
  simp only [text, integerText, signed, Int.natAbs_natCast]
  rw [if_neg (by simp)]

/-- A plain number is written like a natural number, or else it is a double with places behind the
point. -/
theorem text_cases {n : Number} (h : n.Plain) :
    (∃ k, n.text = naturalText k ∧ n.settled = integer k ∧
        (Magnitude.ofDecimal? k 0).isSome = true) ∨
      ∃ m : Magnitude, n.text = m.shortest.positional [] ∧ n.settled = real (.finite false m) ∧
        m.isWhole = false := by
  rcases n with n | _ | negative | ⟨negative, m⟩
  · obtain ⟨hn, hm⟩ := h
    obtain ⟨k, rfl⟩ := Int.eq_ofNat_of_zero_le hn
    exact .inl ⟨k, text_natCast k, rfl, hm⟩
  · exact h.elim
  · exact h.elim
  · by_cases hw : m.isWhole = true
    · refine .inl ⟨m.floor, ?_, ?_, by rw [Magnitude.ofDecimal?_floor hw]; rfl⟩
      · have hsign : (negative && decide (m.units ≠ 0)) = false := by
          cases negative
          · rfl
          · simpa using h rfl
        simp only [text, Double.text, if_pos hw, hsign]
        rfl
      · cases negative
        · simp [settled, hw]
        · simp [settled, hw, (floor_of_units (h rfl)).2]
    · have hnegative : negative = false := by
        by_contra hn
        exact hw (floor_of_units (h (by simpa using hn))).1
      subst hnegative
      refine .inr ⟨m, ?_, ?_, by simpa using hw⟩
      · simp only [text, Double.text, if_neg hw]
        rfl
      · simp [settled, hw]

theorem plain_settled {n : Number} (h : n.Plain) : n.settled.Plain := by
  obtain ⟨k, -, hsettled, hk⟩ | ⟨m, -, hsettled, -⟩ := text_cases h
  · rw [hsettled]
    exact ⟨Int.natCast_nonneg k, hk⟩
  · rw [hsettled]
    intro hfalse
    cases hfalse

/-- What comes back of a plain number is written like the number. -/
theorem text_settled {n : Number} (h : n.Plain) : n.settled.text = n.text := by
  obtain ⟨k, htext, hsettled, -⟩ | ⟨m, htext, hsettled, hm⟩ := text_cases h
  · rw [htext, hsettled, text_natCast]
  · have hsign : (false && decide (m.units ≠ 0)) = false := rfl
    rw [htext, hsettled]
    simp only [text, Double.text, if_neg (show ¬m.isWhole = true by rw [hm]; simp), hsign]
    rfl

/-- **The text of a plain number reads back** as the number itself or as an integer of the same
value. -/
theorem numberPiece_text {n : Number} (h : n.Plain) :
    numberPiece n.text = .lexeme (.value (String.ofList n.text) n.settled) := by
  obtain ⟨k, htext, hsettled, hk⟩ | ⟨m, htext, hsettled, hm⟩ := text_cases h
  · rw [htext, hsettled]
    exact numberPiece_naturalText hk
  · rw [htext, hsettled]
    exact numberPiece_positional (Magnitude.shortest_exponent_neg hm)
      (Magnitude.magnitude?_shortest m)

/-- Every number that a numeral denotes is plain. -/
theorem plain_of_toNumber? {numeral : Numeral} {n : Number} (h : numeral.toNumber? = some n) :
    n.Plain := by
  obtain ⟨m, hm, hn⟩ := Option.map_eq_some_iff.mp h
  have hnumber := Numeral.toNumber?_of_magnitude? hm
  rw [h, Option.some.injEq] at hnumber
  obtain ⟨digits, _ | places⟩ := numeral
  · rw [hnumber]
    refine ⟨Int.natCast_nonneg digits, ?_⟩
    have hmagnitude := (Numeral.magnitude?_mk digits none).symm.trans hm
    exact Option.isSome_iff_exists.mpr ⟨m, hmagnitude⟩
  · rw [hnumber]
    intro hfalse
    cases hfalse

/-- A plain number has a value. -/
theorem exists_value_of_plain {n : Number} (h : n.Plain) : ∃ q, n.value? = some q := by
  rcases n with n | _ | _ | ⟨negative, m⟩
  · exact ⟨_, rfl⟩
  · cases h
  · cases h
  · exact ⟨_, rfl⟩

/-- A finite double that is not below zero is plain. -/
theorem plain_finite {negative : Bool} {m : Magnitude} {q : ℚ}
    (h : (real (.finite negative m)).value? = some q) (hq : 0 ≤ q) :
    (real (.finite negative m)).Plain := by
  intro hnegative
  subst hnegative
  have heq : -((m.units : ℚ) / Magnitude.one) = q := Option.some.inj h
  have hone : (0 : ℚ) < Magnitude.one := Nat.cast_pos.mpr Magnitude.one_pos
  have hunits : (m.units : ℚ) / Magnitude.one ≤ 0 := by linarith
  rw [div_le_iff₀ hone, zero_mul] at hunits
  exact Nat.cast_eq_zero.mp (le_antisymm hunits (Nat.cast_nonneg _))

/-- Numbers from zero up to the ceiling are plain. -/
theorem plain_of_value? {n : Number} {q : ℚ} (h : n.value? = some q) (hzero : 0 ≤ q)
    (hceiling : q < ceiling) : n.Plain := by
  rcases n with n | _ | _ | ⟨negative, m⟩
  · obtain rfl := Option.some.inj h
    have hn : 0 ≤ n := Int.cast_nonneg_iff.mp hzero
    obtain ⟨k, rfl⟩ := Int.eq_ofNat_of_zero_le hn
    refine ⟨hn, Magnitude.isSome_ofDecimal?_iff.mpr ?_⟩
    rw [Int.toNat_natCast]
    rw [Int.cast_natCast] at hceiling
    exact Nat.cast_lt.mp hceiling
  · cases h
  · cases h
  · exact plain_finite h hzero

/-- Plain numbers are those from zero up to the ceiling. -/
theorem plain_iff {n : Number} {q : ℚ} (h : n.value? = some q) : n.Plain ↔ 0 ≤ q ∧ q < ceiling := by
  refine ⟨fun hplain => ?_, fun ⟨hzero, hceiling⟩ => plain_of_value? h hzero hceiling⟩
  rcases n with n | _ | _ | ⟨negative, m⟩
  · obtain rfl := Option.some.inj h
    obtain ⟨hn, hsome⟩ := hplain
    obtain ⟨k, rfl⟩ := Int.eq_ofNat_of_zero_le hn
    rw [Int.toNat_natCast] at hsome
    refine ⟨Int.cast_nonneg_iff.mpr hn, ?_⟩
    rw [Int.cast_natCast]
    exact Nat.cast_lt.mpr (Magnitude.isSome_ofDecimal?_iff.mp hsome)
  · cases h
  · cases h
  · have hone : (0 : ℚ) < Magnitude.one := Nat.cast_pos.mpr Magnitude.one_pos
    have hlt : (m.units : ℚ) / Magnitude.one < ceiling := by
      rw [div_lt_iff₀ hone, ← Nat.cast_mul]
      exact Nat.cast_lt.mpr m.units_lt_ceiling
    have hvalue : q = (m.units : ℚ) / Magnitude.one := by
      cases negative with
      | false => exact (Option.some.inj h).symm
      | true =>
        have hq : -((m.units : ℚ) / Magnitude.one) = q := Option.some.inj h
        rw [← hq, hplain rfl, Nat.cast_zero, zero_div, neg_zero]
    rw [hvalue]
    exact ⟨div_nonneg (Nat.cast_nonneg _) hone.le, hlt⟩

/-! ### The characters of a number -/

/-- Digits and points from a digit on. -/
def Unsigned (cs : List Char) : Prop :=
  ∃ d ds, cs = d :: ds ∧ d.isDigit = true ∧ ∀ c ∈ ds, continuesNumber c = true

theorem continuesNumber_of_isDigit {c : Char} (h : c.isDigit = true) :
    continuesNumber c = true := by
  rw [continuesNumber, text_isDigit_of_isDigit h, Bool.true_or]

theorem exists_cons_of_asciiDigits {cs : List Char} (h : AsciiDigits cs) (hne : cs ≠ []) :
    ∃ d ds, cs = d :: ds ∧ d.isDigit = true ∧ AsciiDigits ds := by
  obtain ⟨d, ds, rfl⟩ := List.exists_cons_of_ne_nil hne
  exact ⟨d, ds, rfl, h d List.mem_cons_self, fun c hc => h c (List.mem_cons_of_mem d hc)⟩

theorem unsigned_naturalText (k : Nat) : Unsigned (naturalText k) := by
  obtain ⟨d, ds, hcons, hd, hds⟩ :=
    exists_cons_of_asciiDigits (asciiDigits_naturalText k) (naturalText_ne_nil k)
  exact ⟨d, ds, hcons, hd, fun c hc => continuesNumber_of_isDigit (hds c hc)⟩

/-- Digits around a point start with a digit and go on with digits and points. -/
theorem unsigned_point {whole fraction : List Char} (hw : AsciiDigits whole)
    (hf : AsciiDigits fraction) (hne : whole ≠ []) : Unsigned (whole ++ '.' :: fraction) := by
  obtain ⟨d, ds, rfl, hd, hds⟩ := exists_cons_of_asciiDigits hw hne
  refine ⟨d, ds ++ '.' :: fraction, rfl, hd, fun c hc => ?_⟩
  rcases List.mem_append.mp hc with hc | hc
  · exact continuesNumber_of_isDigit (hds c hc)
  · rcases List.mem_cons.mp hc with rfl | hc
    · rfl
    · exact continuesNumber_of_isDigit (hf c hc)

theorem unsigned_positional {m : Magnitude} (h : m.isWhole = false) :
    Unsigned (m.shortest.positional []) := by
  have hexp := Magnitude.shortest_exponent_neg h
  obtain ⟨hw, hf, hne, hlen, -⟩ := parts_spec m.shortest hexp
  have hfraction : m.shortest.parts.2 ≠ [] := by
    rw [← List.length_pos_iff]
    omega
  rw [positional_eq hfraction]
  exact unsigned_point hw hf hne

/-- The text of a plain number starts with a digit and goes on with digits and points. -/
theorem text_shape {n : Number} (h : n.Plain) : Unsigned n.text := by
  obtain ⟨k, htext, -, -⟩ | ⟨m, htext, -, hm⟩ := text_cases h
  · rw [htext]
    exact unsigned_naturalText k
  · rw [htext]
    exact unsigned_positional hm

/-- A number that is not below zero has no sign. -/
theorem unsigned_text {n : Number} {q : ℚ} (h : n.value? = some q) (hq : 0 ≤ q) :
    Unsigned n.text := by
  rcases n with n | _ | _ | ⟨negative, m⟩
  · obtain rfl := Option.some.inj h
    obtain ⟨k, rfl⟩ := Int.eq_ofNat_of_zero_le (Int.cast_nonneg_iff.mp hq)
    rw [text_natCast]
    exact unsigned_naturalText k
  · cases h
  · cases h
  · exact text_shape (plain_finite h hq)

/-- A number below zero has a sign. -/
theorem exists_text_of_neg {n : Number} {q : ℚ} (h : n.value? = some q) (hq : q < 0) :
    ∃ cs, n.text = '-' :: cs ∧ Unsigned cs := by
  rcases n with n | _ | _ | ⟨negative, m⟩
  · obtain rfl := Option.some.inj h
    have hn : n < 0 := Int.cast_lt_zero.mp hq
    refine ⟨naturalText n.natAbs, ?_, unsigned_naturalText _⟩
    simp [text, integerText, signed, hn]
  · cases h
  · cases h
  · have hone : (0 : ℚ) < Magnitude.one := Nat.cast_pos.mpr Magnitude.one_pos
    have hunsigned : (0 : ℚ) ≤ m.units / Magnitude.one := div_nonneg (Nat.cast_nonneg _) hone.le
    have hvalue := Option.some.inj h
    cases negative with
    | false =>
      have hpositive : (m.units : ℚ) / Magnitude.one = q := hvalue
      linarith
    | true =>
      have hnegative : -((m.units : ℚ) / Magnitude.one) = q := hvalue
      by_cases hw : m.isWhole = true
      · have hunits : m.units ≠ 0 := by
          rintro hzero
          rw [hzero, Nat.cast_zero, zero_div, neg_zero] at hnegative
          linarith
        exact ⟨naturalText m.floor, by simp [text, Double.text, hw, hunits, signed],
          unsigned_naturalText _⟩
      · exact ⟨m.shortest.positional [], by simp [text, Double.text, hw, signed],
          unsigned_positional (by simpa using hw)⟩

theorem text_ne_nil {n : Number} {q : ℚ} (h : n.value? = some q) : n.text ≠ [] := by
  rcases le_or_gt 0 q with hq | hq
  · obtain ⟨d, ds, htext, -, -⟩ := unsigned_text h hq
    rw [htext]
    exact List.cons_ne_nil _ _
  · obtain ⟨cs, htext, -⟩ := exists_text_of_neg h hq
    rw [htext]
    exact List.cons_ne_nil _ _

/-- A number that is not below zero and reads back is plain. -/
theorem plain_of_numberPiece {n : Number} {q : ℚ} {l : Lexeme} (h : n.value? = some q) (hq : 0 ≤ q)
    (hpiece : numberPiece n.text = .lexeme l) : n.Plain := by
  rcases n with n | _ | _ | ⟨negative, m⟩
  · obtain rfl := Option.some.inj h
    have hn : 0 ≤ n := Int.cast_nonneg_iff.mp hq
    obtain ⟨k, rfl⟩ := Int.eq_ofNat_of_zero_le hn
    have hvalue : Nat.ofDigitChars 10 (naturalText k) 0 = k := Nat.ofDigitChars_ten_toDigits
    have hnumeral := numeral_of_digits (asciiDigits_naturalText k) (naturalText_ne_nil k)
    refine ⟨hn, ?_⟩
    rw [text_natCast, numberPiece, hnumeral, hvalue] at hpiece
    rw [Int.toNat_natCast, Option.isSome_iff_ne_none]
    intro hnone
    have hmagnitude : (Numeral.mk k none).magnitude? = none := hnone
    have hnumber : (Numeral.mk k none).toNumber? = none := by
      rw [Numeral.toNumber?, hmagnitude, Option.map_none]
    simp only [hnumber] at hpiece
    cases hpiece
  · cases h
  · cases h
  · exact plain_finite h hq

end Number
end Formulary
