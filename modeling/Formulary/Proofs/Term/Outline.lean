/-
# The outlines of terms, and the steps of reading them

The outline of a term forgets where in the text the term stands. A token shows a mark if it is one
that a scan gives and the catalog turns its lexeme into the mark. What one step of reading does is
stated here once, for each kind of token and what it needs to know of the tokens behind it.

Key definitions: `Term.outline`, `Token.Shows`.
Key theorems: `Token.shows_append`, and the steps `Progress.read_word`, `Progress.read_call`, `Progress.read_bareCall`.
-/
import Mathlib.Data.List.Forall2
import Formulary.Proofs.Outline.Scan
import Formulary.Term.Reading

namespace Formulary

/-! ### Outlines -/

namespace Term

mutual

/-- The outline of a term. -/
def outline : Term → Outline
  | reference _ id => .reference id
  | operator _ symbol => .operator symbol
  | value _ number => .value number
  | call _ name _ arguments => .call name (argumentOutlines arguments)
  | group _ body => .group (outlines body)

/-- The outline of a sequence. -/
def outlines : List Term → List Outline
  | [] => []
  | term :: rest => term.outline :: outlines rest

/-- The outlines of arguments. -/
def argumentOutlines : List (List Term) → List (List Outline)
  | [] => []
  | argument :: rest => outlines argument :: argumentOutlines rest

end

theorem outlines_eq_map : ∀ ts : List Term, outlines ts = ts.map outline
  | [] => rfl
  | t :: ts => by rw [outlines, outlines_eq_map ts, List.map_cons]

theorem argumentOutlines_eq_map : ∀ as : List (List Term),
    argumentOutlines as = as.map outlines
  | [] => rfl
  | a :: as => by rw [argumentOutlines, argumentOutlines_eq_map as, List.map_cons]

theorem outlines_append (ts us : List Term) : outlines (ts ++ us) = outlines ts ++ outlines us := by
  simp [outlines_eq_map]

theorem isOperand_outline (t : Term) : t.outline.isOperand = t.isOperand := by
  cases t <;> rfl

end Term

/-! ### Tokens and marks -/

/-- The lexeme of a parenthesis or a comma. -/
def Mark.bracket? : Mark → Option Lexeme
  | opening => some .opening
  | closing => some .closing
  | comma => some .comma
  | blank | word _ | reference _ | value _ => none

namespace Token

variable {catalog : Catalog}

/-- Whether a token is known and stands for a mark. -/
def Shows (catalog : Catalog) (t : Token) (m : Mark) : Prop :=
  t.lexeme.mark? catalog = some m ∧ t.lexeme.Known

theorem shows_append {tokens : List Token} : ∀ {ms ns : List Mark},
    List.Forall₂ (Shows catalog) tokens (ms ++ ns) →
    ∃ ts us, tokens = ts ++ us ∧ List.Forall₂ (Shows catalog) ts ms ∧
      List.Forall₂ (Shows catalog) us ns := by
  intro ms
  induction ms generalizing tokens with
  | nil => exact fun h => ⟨[], tokens, rfl, .nil, h⟩
  | cons m ms ih =>
    intro ns h
    obtain ⟨t, tokens, hm, hrest, rfl⟩ := List.forall₂_cons_right_iff.mp h
    obtain ⟨ts, us, rfl, hts, hus⟩ := ih hrest
    exact ⟨t :: ts, us, rfl, .cons hm hts, hus⟩

theorem shows_singleton {tokens : List Token} {m : Mark}
    (h : List.Forall₂ (Shows catalog) tokens [m]) : ∃ t, tokens = [t] ∧ t.Shows catalog m := by
  obtain ⟨t, rest, hm, hrest, rfl⟩ := List.forall₂_cons_right_iff.mp h
  obtain rfl := List.forall₂_nil_right_iff.mp hrest
  exact ⟨t, rfl, hm⟩

/-- Known tokens with the marks of a list show the list. -/
theorem forall₂_shows {tokens : List Token} {ms : List Mark}
    (h : tokens.map (fun t => t.lexeme.mark? catalog) = ms.map some)
    (hknown : ∀ t ∈ tokens, t.lexeme.Known) : List.Forall₂ (Shows catalog) tokens ms := by
  induction tokens generalizing ms with
  | nil =>
    obtain rfl := List.map_eq_nil_iff.mp h.symm
    exact .nil
  | cons t tokens ih =>
    cases ms with
    | nil => cases h
    | cons m ms =>
      obtain ⟨hm, hrest⟩ := List.cons.inj h
      exact .cons ⟨hm, hknown t List.mem_cons_self⟩
        (ih hrest fun u hu => hknown u (List.mem_cons_of_mem _ hu))

theorem eq_reference_of_shows {t : Token} {id : String} (h : t.Shows catalog (.reference id)) :
    ∃ name found position, t = ⟨.reference name, position⟩ ∧
      catalog.findByName? name = some found ∧ found.id = id := by
  obtain ⟨l, position⟩ := t
  have hmark := h.1
  cases l with
  | reference name =>
    obtain ⟨found, hfound, hid⟩ := Option.map_eq_some_iff.mp hmark
    exact ⟨name, found, position, rfl, hfound, Mark.reference.inj hid⟩
  | _ => cases hmark

theorem eq_value_of_shows {t : Token} {number : Number} (h : t.Shows catalog (.value number)) :
    ∃ literal position, t = ⟨.value literal number, position⟩ := by
  obtain ⟨l, position⟩ := t
  have hmark := h.1
  cases l with
  | value literal n =>
    obtain rfl := Mark.value.inj (Option.some.inj hmark)
    exact ⟨literal, position, rfl⟩
  | reference name =>
    obtain ⟨found, -, hid⟩ := Option.map_eq_some_iff.mp hmark
    cases hid
  | _ => cases hmark

/-- A token that shows a word is a function if the word is the name of one, and else an operator. -/
theorem eq_word_of_shows {t : Token} {word : String} (h : t.Shows catalog (.word word)) :
    ∃ position, t =
      ⟨if isFunctionName word then .function word else .operator word, position⟩ := by
  obtain ⟨l, position⟩ := t
  obtain ⟨hmark, hknown⟩ := h
  cases l with
  | function name =>
    obtain rfl := Mark.word.inj (Option.some.inj hmark)
    have hname : isFunctionName name = true := hknown
    exact ⟨position, by rw [if_pos hname]⟩
  | operator symbol =>
    obtain rfl := Mark.word.inj (Option.some.inj hmark)
    exact ⟨position, by rw [if_neg (by simp [hknown.2])]⟩
  | reference name =>
    obtain ⟨found, -, hid⟩ := Option.map_eq_some_iff.mp hmark
    cases hid
  | _ => cases hmark

theorem eq_bracket_of_shows {t : Token} {m : Mark} {l : Lexeme} (h : t.Shows catalog m)
    (hm : m.bracket? = some l) : ∃ position, t = ⟨l, position⟩ := by
  obtain ⟨lexeme, position⟩ := t
  have hmark := h.1
  cases lexeme with
  | reference name =>
    obtain ⟨found, -, rfl⟩ := Option.map_eq_some_iff.mp hmark
    cases hm
  | _ =>
    obtain rfl := Option.some.inj hmark
    first | exact ⟨position, by rw [← Option.some.inj hm]⟩ | cases hm

theorem eq_group_of_shows {tokens : List Token} {body : List Outline}
    (h : List.Forall₂ (Shows catalog) tokens (Outline.group body).solid) :
    ∃ opening closing ts, tokens = ⟨.opening, opening⟩ :: ts ++ [⟨.closing, closing⟩] ∧
      List.Forall₂ (Shows catalog) ts (Outline.sequenceSolid body) := by
  rw [Outline.solid_group, List.cons_append] at h
  obtain ⟨t, us, ht, hus, rfl⟩ := List.forall₂_cons_right_iff.mp h
  obtain ⟨opening, rfl⟩ := eq_bracket_of_shows ht rfl
  obtain ⟨ts, cs, rfl, hts, hcs⟩ := shows_append hus
  obtain ⟨t, rfl, ht⟩ := shows_singleton hcs
  obtain ⟨closing, rfl⟩ := eq_bracket_of_shows ht rfl
  exact ⟨opening, closing, ts, rfl, hts⟩

theorem eq_call_of_shows {tokens : List Token} {name : String} {arguments : List (List Outline)}
    (h : List.Forall₂ (Shows catalog) tokens (Outline.call name arguments).solid) :
    ∃ position opening closing ts, tokens =
        ⟨if isFunctionName name then .function name else .operator name, position⟩ ::
          ⟨.opening, opening⟩ :: ts ++ [⟨.closing, closing⟩] ∧
      List.Forall₂ (Shows catalog) ts (Outline.argumentSolid arguments) := by
  rw [Outline.solid_call, List.cons_append, List.cons_append] at h
  obtain ⟨t, us, ht, hus, rfl⟩ := List.forall₂_cons_right_iff.mp h
  obtain ⟨position, rfl⟩ := eq_word_of_shows ht
  obtain ⟨t, vs, ht, hvs, rfl⟩ := List.forall₂_cons_right_iff.mp hus
  obtain ⟨opening, rfl⟩ := eq_bracket_of_shows ht rfl
  obtain ⟨ts, cs, rfl, hts, hcs⟩ := shows_append hvs
  obtain ⟨t, rfl, ht⟩ := shows_singleton hcs
  obtain ⟨closing, rfl⟩ := eq_bracket_of_shows ht rfl
  exact ⟨position, opening, closing, ts, rfl, hts⟩

/-- Whether a list of tokens starts with an opening parenthesis. -/
def startsOpening : List Token → Bool
  | ⟨.opening, _⟩ :: _ => true
  | _ => false

/-- Whether a list of tokens starts with a closing parenthesis. -/
def startsClosing : List Token → Bool
  | ⟨.closing, _⟩ :: _ => true
  | _ => false

end Token

/-! ### Steps -/

namespace Progress

variable {limit : Int} {catalog : Catalog} {rest : List Token} {s : Progress} {name : String}
  {position opening : Nat}

theorem descend_of_le (h : (s.frames.length : Int) + 1 ≤ limit) :
    s.descend limit position = .ok () := by
  unfold descend
  rw [if_neg (by omega)]

theorem read_reference {found : Attribute} (h : catalog.findByName? name = some found) :
    read limit catalog (⟨.reference name, position⟩ :: rest) s =
      read limit catalog rest (s.push (.reference position found.id)) := by
  rw [read, refer, h]

theorem read_value (literal : String) (number : Number) :
    read limit catalog (⟨.value literal number, position⟩ :: rest) s =
      read limit catalog rest (s.push (.value position number)) := by
  rw [read]

theorem read_symbol (symbol : String) :
    read limit catalog (⟨.operator symbol, position⟩ :: rest) s =
      read limit catalog rest (s.push (.operator position symbol)) := by
  rw [read]

/-- A function name that no parenthesis follows. -/
theorem read_function (h : Token.startsOpening rest = false) :
    read limit catalog (⟨.function name, position⟩ :: rest) s =
      read limit catalog rest (s.readBare name position) := by
  rw [read]
  rintro p rest rfl
  cases h

/-- A parenthesis that opens a group. -/
theorem read_opening (h : (s.frames.length : Int) + 1 ≤ limit) :
    read limit catalog (⟨.opening, opening⟩ :: rest) s =
      read limit catalog rest (s.enter .group opening) := by
  rw [read, descend_of_le h]
  rfl

/-- A word behind an operand and in front of a parenthesis is an operator and opens a group. -/
theorem read_joined (h : (s.frames.length : Int) + 1 ≤ limit)
    (hword : (isOperator name && s.followsOperand) = true) :
    read limit catalog (⟨.function name, position⟩ :: ⟨.opening, opening⟩ :: rest) s =
      read limit catalog rest ((s.push (.operator position name)).enter .group opening) := by
  have hdescend : (s.push (.operator position name)).descend limit opening = .ok () :=
    descend_of_le h
  rw [read.eq_def]
  simp only [if_pos hword, hdescend]
  rfl

/-- A word is an operator, unless it is the name of a function in front of a parenthesis and not
behind an operand. -/
theorem read_word (hoperator : isOperator name = true)
    (h : Token.startsOpening rest = true → (s.frames.length : Int) + 1 ≤ limit ∧
      (isFunctionName name && !s.followsOperand) = false) :
    read limit catalog
        (⟨if isFunctionName name then .function name else .operator name, position⟩ :: rest) s =
      read limit catalog rest (s.push (.operator position name)) := by
  by_cases hname : isFunctionName name = true
  · rw [if_pos hname]
    by_cases hopening : Token.startsOpening rest = true
    · obtain ⟨hle, hoperand⟩ := h hopening
      have hword : (isOperator name && s.followsOperand) = true := by
        simpa [hoperator, hname] using hoperand
      rcases rest with _ | ⟨⟨_ | _ | _ | _ | _ | _ | _, p⟩, rest⟩ <;> try cases hopening
      exact (read_joined hle hword).trans (read_opening (s := s.push _) hle).symm
    · rw [read_function (by simpa using hopening), readBare, if_pos hoperator]
  · rw [if_neg hname, read_symbol]

/-- A call without arguments. -/
theorem read_bareCall (h : (s.frames.length : Int) + 1 ≤ limit)
    (hword : (isOperator name && s.followsOperand) = false) (closing : Nat) :
    read limit catalog
        (⟨.function name, position⟩ :: ⟨.opening, opening⟩ :: ⟨.closing, closing⟩ :: rest) s =
      read limit catalog rest
        (s.push (.call position name (some ⟨opening, some closing⟩) [])) := by
  have hnot : ¬(isOperator name && s.followsOperand) = true := by simp [hword]
  rw [read, if_neg hnot, descend_of_le h]
  rfl

/-- A call with something between its parentheses. -/
theorem read_call (h : (s.frames.length : Int) + 1 ≤ limit)
    (hword : (isOperator name && s.followsOperand) = false) (hne : rest ≠ [])
    (hclosing : Token.startsClosing rest = false) :
    read limit catalog (⟨.function name, position⟩ :: ⟨.opening, opening⟩ :: rest) s =
      read limit catalog rest (s.enter (.call position name []) opening) := by
  have hnot : ¬(isOperator name && s.followsOperand) = true := by simp [hword]
  rw [read.eq_def]
  simp only [if_neg hnot, descend_of_le h]
  rcases rest with _ | ⟨⟨l, p⟩, rest⟩
  · cases hne rfl
  · cases l with
    | closing => cases hclosing
    | _ => rfl

theorem read_closing (position : Nat) :
    read limit catalog (⟨.closing, position⟩ :: rest) s =
      read limit catalog rest (s.leave position) := by
  rw [read]

theorem read_comma (position : Nat) :
    read limit catalog (⟨.comma, position⟩ :: rest) s =
      read limit catalog rest (s.separate position) := by
  rw [read]

end Progress
end Formulary
