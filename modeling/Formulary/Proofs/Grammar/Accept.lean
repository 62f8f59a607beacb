/-
# What the reader accepts

The lexemes of a text are an expression if and only if the reader notes nothing and operands and
operators alternate in every sequence of what it reads (`Formula.isExpression_iff`). In one direction an
expression has an outline that alternates, which the reader gets back from the lexemes; in the other the
lexemes show the outline of what is read, and an outline that alternates is an expression.

Key definition: `Outline.Proper`.
Key theorems: `exists_outline`, `isExpression_of_shows`, `Formula.isExpression_iff`.
-/
import Formulary.Proofs.Grammar.Basic
import Formulary.Proofs.RoundTrip.Layout

namespace Formulary

variable {limit : Int} {catalog : Catalog}

/-! ### Nesting -/

theorem le_nesting : ∀ (depth : Nat) (ls : List Lexeme), depth ≤ nesting depth ls
  | _, [] => Nat.le_refl _
  | depth, .opening :: rest => Nat.le_trans (Nat.le_succ depth) (le_nesting (depth + 1) rest)
  | _, .closing :: _ => Nat.le_max_left _ _
  | depth, .function _ :: rest => le_nesting depth rest
  | depth, .operator _ :: rest => le_nesting depth rest
  | depth, .reference _ :: rest => le_nesting depth rest
  | depth, .value _ _ :: rest => le_nesting depth rest
  | depth, .comma :: rest => le_nesting depth rest

/-- The lexemes of tokens. -/
def lexemes (tokens : List Token) : List Lexeme :=
  tokens.map Token.lexeme

namespace Progress

/-- **Reading succeeds if parentheses are not nested more deeply than the limit allows.** -/
theorem exists_read {tokens : List Token} {s : Progress}
    (h : (nesting s.frames.length (lexemes tokens) : Int) ≤ limit) :
    ∃ s', read limit catalog tokens s = .ok s' := by
  fun_induction read limit catalog tokens s with
  | case1 s => exact ⟨s, rfl⟩
  | case2 name position opening rest s hword s₁ ih =>
    have hdepth := le_nesting (s.frames.length + 1) (lexemes rest)
    have hrest : (nesting (s.frames.length + 1) (lexemes rest) : Int) ≤ limit := h
    have hdescend : s₁.descend limit opening = .ok () :=
      descend_of_le (by show (s.frames.length : Int) + 1 ≤ limit; omega)
    rw [hdescend]
    exact ih hrest
  | case3 name position opening rest s hword ih =>
    have hdepth := le_nesting (s.frames.length + 1) (lexemes rest)
    have hrest : (nesting (s.frames.length + 1) (lexemes rest) : Int) ≤ limit := h
    rw [descend_of_le (by omega)]
    rcases rest with _ | ⟨⟨l, closing⟩, rest⟩
    · exact ⟨_, rfl⟩
    · cases l with
      | closing =>
        have hmax : (max (s.frames.length + 1) (nesting s.frames.length (lexemes rest)) : Nat) ≤ limit :=
          hrest
        exact ih (by show (nesting s.frames.length (lexemes rest) : Int) ≤ limit; omega)
      | _ => exact ih hrest
  | case4 name position rest s hrest ih =>
    exact ih (by rw [length_frames_readBare]; exact h)
  | case5 symbol position rest s ih => exact ih h
  | case6 name position rest s ih => exact ih (by rw [length_frames_refer]; exact h)
  | case7 literal number position rest s ih => exact ih h
  | case8 position rest s ih =>
    have hdepth := le_nesting (s.frames.length + 1) (lexemes rest)
    have hrest : (nesting (s.frames.length + 1) (lexemes rest) : Int) ≤ limit := h
    rw [descend_of_le (by omega)]
    exact ih hrest
  | case9 position rest s ih =>
    have hmax : (max s.frames.length (nesting (s.frames.length - 1) (lexemes rest)) : Nat) ≤ limit := h
    exact ih (by rw [length_frames_leave]; omega)
  | case10 position rest s ih => exact ih (by rw [length_frames_separate]; exact h)

end Progress

/-! ### From expressions to outlines -/

/-- `AND`, `OR` and `NOT` are the names of functions that are operators. -/
theorem mem_words_iff {name : String} (h : isFunctionName name = true) :
    name ∈ ["AND", "OR", "NOT"] ↔ isOperator name = true := by
  have hall : ∀ n ∈ Signature.all.map (·.name),
      n ∈ ["AND", "OR", "NOT"] ↔ isOperator n = true := by
    decide
  obtain ⟨s, hs⟩ := Option.isSome_iff_exists.mp h
  have hname : s.name = name := by simpa using List.find?_some hs
  exact hname ▸ hall s.name (List.mem_map_of_mem (List.mem_of_find?_eq_some hs))

namespace Outline

/-- Whether a sequence alternates, has known words only, and has no call with one empty argument. -/
structure Proper (q : List Outline) : Prop where
  alternates : Role.alternates (q.map role) = true
  named : ∀ o ∈ q, o.Named
  hollow : ∀ o ∈ q, o.isHollow = false

theorem Proper.ne_nil {q : List Outline} (h : Proper q) : q ≠ [] := by
  rintro rfl
  cases h.alternates

theorem proper_singleton {o : Outline} (hoperand : o.isOperand = true) (hnamed : o.Named)
    (hhollow : o.isHollow = false) : Proper [o] := by
  refine ⟨(isOperand_role o).trans hoperand, fun u hu => ?_, fun u hu => ?_⟩
  · obtain rfl := List.mem_singleton.mp hu
    exact hnamed
  · obtain rfl := List.mem_singleton.mp hu
    exact hhollow

/-- An operand and an operator in front of a proper sequence. -/
theorem Proper.operation {o : Outline} {symbol : String} {q : List Outline} (h : Proper q)
    (hoperand : o.isOperand = true) (hnamed : o.Named) (hhollow : o.isHollow = false)
    (hsymbol : isOperator symbol = true) : Proper (o :: operator symbol :: q) := by
  refine ⟨?_, fun u hu => ?_, fun u hu => ?_⟩
  · have hoperator : (operator symbol).role.isOperand = false := isOperand_role (operator symbol)
    rw [List.map_cons, List.map_cons, Role.alternates, isOperand_role, hoperand, hoperator,
      h.alternates]
    rfl
  · rcases List.mem_cons.mp hu with rfl | hu
    · exact hnamed
    · rcases List.mem_cons.mp hu with rfl | hu
      · exact hsymbol
      · exact h.named u hu
  · rcases List.mem_cons.mp hu with rfl | hu
    · exact hhollow
    · rcases List.mem_cons.mp hu with rfl | hu
      · rfl
      · exact h.hollow u hu

/-- A call has no single empty argument if no argument is empty. -/
theorem isHollow_call_of_proper {name : String} {arguments : List (List Outline)}
    (h : ∀ q ∈ argumentInner arguments, Proper q) : (call name arguments).isHollow = false := by
  refine isHollow_call ?_
  rintro rfl
  exact (h [] List.mem_cons_self).ne_nil rfl

end Outline

open Outline

/-- The marks of a lexeme of a word. -/
theorem exists_symbol_of_isOperation (catalog : Catalog) {l : Lexeme} (h : l.IsOperation) (hknown : l.Known) :
    ∃ symbol, l.mark? catalog = some (.word symbol) ∧ isOperator symbol = true := by
  cases h with
  | operator symbol => exact ⟨symbol, rfl, hknown.1⟩
  | @function name hname => exact ⟨name, rfl, (mem_words_iff hknown).mp hname⟩

mutual

/-- An expression has a proper outline. -/
theorem exists_outline : ∀ {ls : List Lexeme}, IsExpression catalog ls → (∀ l ∈ ls, l.Known) →
    ∃ os, ls.map (Lexeme.mark? catalog) = (sequenceSolid os).map some ∧
      ∀ q ∈ sequences os, Proper q
  | _, .term h, hknown => by
    obtain ⟨o, hmarks, hoperand, hnamed, hhollow, hinner⟩ := exists_outline_of_term h hknown
    refine ⟨[o], by rw [sequenceSolid_cons, hmarks]; simp [sequenceSolid, sequenceMarks], ?_⟩
    intro q hq
    rcases List.mem_cons.mp hq with rfl | hq
    · exact proper_singleton hoperand hnamed hhollow
    · exact hinner q (by simpa [sequenceInner] using hq)
  | _, .operation h hl hrest, hknown => by
    simp only [List.mem_append, List.mem_cons] at hknown
    obtain ⟨o, hmarks, hoperand, hnamed, hhollow, hinner⟩ :=
      exists_outline_of_term h fun l hl => hknown l (.inl hl)
    obtain ⟨symbol, hmark, hsymbol⟩ :=
      exists_symbol_of_isOperation catalog hl (hknown _ (.inr (.inl rfl)))
    obtain ⟨os, hrestMarks, hproper⟩ := exists_outline hrest fun l hl => hknown l (.inr (.inr hl))
    refine ⟨o :: operator symbol :: os, ?_, fun q hq => ?_⟩
    · rw [List.map_append, List.map_cons, hmarks, hmark, hrestMarks, sequenceSolid_cons,
        sequenceSolid_cons]
      simp [solid, marks, Mark.isSolid]
    · rcases List.mem_cons.mp hq with rfl | hq
      · exact (hproper os List.mem_cons_self).operation hoperand hnamed hhollow hsymbol
      · rcases List.mem_append.mp hq with hq | hq
        · exact hinner q hq
        · exact hproper q (List.mem_cons_of_mem _ hq)

theorem exists_outline_of_term : ∀ {ls : List Lexeme}, IsTerm catalog ls → (∀ l ∈ ls, l.Known) →
    ∃ o : Outline, ls.map (Lexeme.mark? catalog) = o.solid.map some ∧ o.isOperand = true ∧ o.Named ∧
      o.isHollow = false ∧ ∀ q ∈ o.inner, Proper q
  | _, .reference h, _ => by
    obtain ⟨found, hfound⟩ := Option.isSome_iff_exists.mp h
    refine ⟨.reference found.id, ?_, rfl, trivial, rfl, fun _ hq => by cases hq⟩
    rw [List.map_singleton, Lexeme.mark?, hfound]
    rfl
  | _, .value literal number, _ =>
    ⟨.value number, rfl, rfl, trivial, rfl, fun _ hq => by cases hq⟩
  | _, .bareCall name, hknown =>
    ⟨.call name [], rfl, rfl, hknown _ List.mem_cons_self, rfl, fun _ hq => by cases hq⟩
  | _, .call name h, hknown => by
    simp only [List.cons_append, List.mem_cons, List.mem_append] at hknown
    obtain ⟨as, -, hmarks, hproper⟩ := exists_outline_of_arguments h
      fun l hl => hknown l (.inr (.inr (.inl hl)))
    refine ⟨.call name as, ?_, rfl, hknown _ (.inl rfl), isHollow_call_of_proper hproper, hproper⟩
    simp only [List.cons_append, List.map_cons, List.map_append, List.map_nil, hmarks, solid_call,
      Lexeme.mark?]
  | _, .group h, hknown => by
    simp only [List.cons_append, List.mem_cons, List.mem_append] at hknown
    obtain ⟨os, hmarks, hproper⟩ := exists_outline h fun l hl => hknown l (.inr (.inl hl))
    refine ⟨.group os, ?_, rfl, trivial, rfl, hproper⟩
    simp only [List.cons_append, List.map_cons, List.map_append, List.map_nil, hmarks, solid_group,
      Lexeme.mark?]

theorem exists_outline_of_arguments : ∀ {ls : List Lexeme}, IsArguments catalog ls →
    (∀ l ∈ ls, l.Known) →
    ∃ as, as ≠ [] ∧ ls.map (Lexeme.mark? catalog) = (argumentSolid as).map some ∧
      ∀ q ∈ argumentInner as, Proper q
  | _, .last h, hknown => by
    obtain ⟨os, hmarks, hproper⟩ := exists_outline h hknown
    exact ⟨[os], List.cons_ne_nil _ _, hmarks, by simpa [argumentInner, sequences] using hproper⟩
  | _, .more h hrest, hknown => by
    simp only [List.mem_append, List.mem_cons] at hknown
    obtain ⟨os, hmarks, hproper⟩ := exists_outline h fun l hl => hknown l (.inl hl)
    obtain ⟨as, has, hrestMarks, hrestProper⟩ := exists_outline_of_arguments hrest
      fun l hl => hknown l (.inr (.inr hl))
    obtain ⟨a, others, rfl⟩ := List.exists_cons_of_ne_nil has
    refine ⟨os :: a :: others, List.cons_ne_nil _ _, ?_, fun q hq => ?_⟩
    · rw [List.map_append, List.map_cons, hmarks, hrestMarks, argumentSolid_cons_cons,
        List.map_append]
      rfl
    · rcases List.mem_append.mp hq with hq | hq
      · exact hproper q hq
      · exact hrestProper q hq

end

/-! ### From outlines to expressions -/

/-- A word between two terms is an operator. -/
theorem isOperation_of_shows {t : Token} {symbol : String} (h : t.Shows catalog (.word symbol))
    (hsymbol : isOperator symbol = true) : t.lexeme.IsOperation := by
  obtain ⟨position, rfl⟩ := Token.eq_word_of_shows h
  by_cases hname : isFunctionName symbol = true
  · rw [if_pos hname]
    exact .function ((mem_words_iff hname).mpr hsymbol)
  · rw [if_neg hname]
    exact .operator symbol

theorem lexemes_append (ts us : List Token) : lexemes (ts ++ us) = lexemes ts ++ lexemes us :=
  List.map_append

mutual

theorem isTerm_of_shows : ∀ {o : Outline} {tokens : List Token},
    List.Forall₂ (Token.Shows catalog) tokens o.solid → o.isOperand = true → o.Named →
    (∀ q ∈ o.inner, Role.alternates (q.map role) = true ∧ ∀ u ∈ q, u.Named) →
    IsTerm catalog (lexemes tokens)
  | .reference id, tokens, h, _, _, _ => by
    obtain ⟨t, rfl, ht⟩ := Token.shows_singleton h
    obtain ⟨name, found, position, rfl, hfound, -⟩ := Token.eq_reference_of_shows ht
    exact .reference (by rw [hfound]; rfl)
  | .operator _, _, _, hoperand, _, _ => by cases hoperand
  | .value number, tokens, h, _, _, _ => by
    obtain ⟨t, rfl, ht⟩ := Token.shows_singleton h
    obtain ⟨literal, position, rfl⟩ := Token.eq_value_of_shows ht
    exact .value literal number
  | .call name arguments, tokens, h, _, hnamed, hinner => by
    obtain ⟨position, opening, closing, ts, rfl, hts⟩ := Token.eq_call_of_shows h
    have hname : isFunctionName name = true := hnamed
    rw [if_pos hname]
    by_cases harguments : arguments = []
    · subst harguments
      obtain rfl := List.forall₂_nil_right_iff.mp hts
      exact .bareCall name
    · have hbody := isArguments_of_shows harguments hts hinner
      simp only [lexemes, List.cons_append, List.map_cons, List.map_append, List.map_nil]
      exact .call name hbody
  | .group body, tokens, h, _, _, hinner => by
    obtain ⟨opening, closing, ts, rfl, hts⟩ := Token.eq_group_of_shows h
    have hbody := isExpression_of_shows hts (hinner body List.mem_cons_self)
      fun q hq => hinner q (List.mem_cons_of_mem _ hq)
    simp only [lexemes, List.cons_append, List.map_cons, List.map_append, List.map_nil]
    exact .group hbody

/-- Tokens that show an alternating outline are an expression. -/
theorem isExpression_of_shows : ∀ {os : List Outline} {tokens : List Token},
    List.Forall₂ (Token.Shows catalog) tokens (sequenceSolid os) →
    Role.alternates (os.map role) = true ∧ (∀ o ∈ os, o.Named) →
    (∀ q ∈ sequenceInner os, Role.alternates (q.map role) = true ∧ ∀ u ∈ q, u.Named) →
    IsExpression catalog (lexemes tokens)
  | [o], tokens, h, hos, hinner => by
    have hsolid : sequenceSolid [o] = o.solid := rfl
    rw [hsolid] at h
    refine .term (isTerm_of_shows h ?_ (hos.2 o List.mem_cons_self) fun q hq => hinner q ?_)
    · rw [← Outline.isOperand_role]
      exact hos.1
    · exact List.mem_append_left _ hq
  | o :: u :: rest, tokens, h, hos, hinner => by
    obtain ⟨halternates, hnamed⟩ := hos
    rw [List.map_cons, List.map_cons, Role.alternates, Bool.and_eq_true, Bool.and_eq_true,
      Outline.isOperand_role, Outline.isOperand_role] at halternates
    obtain ⟨⟨ho, hu⟩, hrest⟩ := halternates
    cases u with
    | operator symbol =>
      rw [sequenceSolid_cons, sequenceSolid_cons] at h
      obtain ⟨ts, us, rfl, hts, hus⟩ := Token.shows_append h
      obtain ⟨t, vs, ht, hvs, rfl⟩ := List.forall₂_cons_right_iff.mp hus
      have hterm := isTerm_of_shows hts ho (hnamed o List.mem_cons_self)
        fun q hq => hinner q (List.mem_append_left _ hq)
      have hbehind := isExpression_of_shows hvs
        ⟨hrest, fun v hv => hnamed v (List.mem_cons_of_mem _ (List.mem_cons_of_mem _ hv))⟩
        fun q hq => hinner q (List.mem_append_right _ hq)
      have hoperator := isOperation_of_shows ht
        (hnamed (.operator symbol) (List.mem_cons_of_mem _ List.mem_cons_self))
      rw [lexemes_append]
      exact .operation hterm hoperator hbehind
    | _ => simp [Outline.isOperand] at hu

theorem isArguments_of_shows : ∀ {as : List (List Outline)} {tokens : List Token}, as ≠ [] →
    List.Forall₂ (Token.Shows catalog) tokens (argumentSolid as) →
    (∀ q ∈ argumentInner as, Role.alternates (q.map role) = true ∧ ∀ u ∈ q, u.Named) →
    IsArguments catalog (lexemes tokens)
  | [a], tokens, _, h, hinner => by
    have hsolid : argumentSolid [a] = sequenceSolid a := rfl
    rw [hsolid] at h
    refine .last (isExpression_of_shows h (hinner a List.mem_cons_self) fun q hq => hinner q ?_)
    exact List.mem_cons_of_mem _ (List.mem_append_left _ hq)
  | a :: b :: rest, tokens, _, h, hinner => by
    rw [argumentSolid_cons_cons] at h
    obtain ⟨ts, us, rfl, hts, hus⟩ := Token.shows_append h
    obtain ⟨t, vs, ht, hvs, rfl⟩ := List.forall₂_cons_right_iff.mp hus
    obtain ⟨position, rfl⟩ := Token.eq_bracket_of_shows ht rfl
    have hfirst := isExpression_of_shows hts (hinner a List.mem_cons_self)
      fun q hq => hinner q (List.mem_cons_of_mem _ (List.mem_append_left _ hq))
    have ih := isArguments_of_shows (List.cons_ne_nil b rest) hvs
      fun q hq => hinner q (List.mem_cons_of_mem _ (List.mem_append_right _ hq))
    rw [lexemes_append]
    exact .more hfirst ih

end

/-! ### Whole texts -/

theorem named_of_scanned {o : Outline} (h : o.Scanned catalog) : o.Named := by
  cases o with
  | operator symbol => exact h
  | call name arguments => exact h
  | _ => trivial

namespace Formula

variable {text : String}

/-- What is read from the lexemes of an expression is its outline, with nothing to note. -/
theorem of_isExpression {formula : Formula} (hread : read limit catalog text = .ok formula)
    (h : IsExpression catalog (lexemes (Scan.ofText text).tokens)) :
    formula.notes = [] ∧ ∀ q ∈ sequences formula.outlines, Proper q := by
  have hknown : ∀ l ∈ lexemes (Scan.ofText text).tokens, l.Known := by
    intro l hl
    obtain ⟨t, ht, rfl⟩ := List.mem_map.mp hl
    exact known_of_mem_tokens t ht
  obtain ⟨os, hmarks, hproper⟩ := exists_outline h hknown
  rw [lexemes, List.map_map] at hmarks
  have hshows := Token.forall₂_shows hmarks known_of_mem_tokens
  have hfaithful : Faithful os := fun q hq =>
    ⟨Role.misreads_of_alternates (hproper q hq).alternates, (hproper q hq).hollow⟩
  -- Under a limit that is high enough the outline is read, and so it is under this one.
  obtain ⟨enough, hlimit, hheight⟩ : ∃ enough : Int, limit ≤ enough ∧
      (sequenceHeight os : Int) ≤ max enough 0 :=
    ⟨max limit (sequenceHeight os), by omega, by omega⟩
  obtain ⟨terms, hterms, houtlines⟩ := readTerms_of_shows hshows
    (fun q hq => ⟨(hproper q hq).named, Role.callsFit_of_alternates (hproper q hq).alternates⟩)
    hheight
  have hsame := read_mono hread hlimit
  rw [read_of_readTerms hterms] at hsame
  obtain rfl := Except.ok.inj hsame
  rw [sequenceReread_of_faithful hfaithful] at houtlines
  refine ⟨rfl, ?_⟩
  rw [outlines, houtlines]
  exact hproper

/-- What is read with nothing to note and alternates was read from an expression. -/
theorem isExpression_of_read {formula : Formula} (hread : read limit catalog text = .ok formula)
    (hnotes : formula.notes = [])
    (h : ∀ q ∈ sequences formula.outlines, Role.alternates (q.map role) = true) :
    IsExpression catalog (lexemes (Scan.ofText text).tokens) := by
  have hterms := (readTerms_of_read hread).2
  rw [hnotes] at hterms
  have hshows := Token.forall₂_shows (marks_of_readTerms hterms) known_of_mem_tokens
  have hproper : ∀ q ∈ sequences formula.outlines,
      Role.alternates (q.map role) = true ∧ ∀ u ∈ q, u.Named := fun q hq =>
    ⟨h q hq, fun u hu => named_of_scanned (((good_of_read hread).fine q hq).scanned u hu)⟩
  exact isExpression_of_shows hshows (hproper _ List.mem_cons_self)
    fun q hq => hproper q (List.mem_cons_of_mem _ hq)

/-- **The reader and the check of sequences accept exactly the expressions.** Under a limit that is no
less than the nesting of the text, reading succeeds, and the lexemes of the text are an expression if
and only if the reader notes nothing and every sequence of the store, of which none is empty, passes the
check. -/
theorem isExpression_iff
    (hlimit : (nesting 0 (lexemes (Scan.ofText text).tokens) : Int) ≤ limit) :
    ∃ formula, read limit catalog text = .ok formula ∧ ∀ k,
      (IsExpression catalog (lexemes (Scan.ofText text).tokens) ↔
        formula.notes = [] ∧
          ∀ q ∈ (formula.store k).sequences, q ≠ [] ∧ checkSequence q = []) := by
  obtain ⟨s, hs⟩ := @Progress.exists_read limit catalog _ .start hlimit
  have hterms : readTerms limit catalog (Scan.ofText text).tokens =
      .ok (Progress.closeAll s.frames s.body s.notes) := by
    rw [readTerms, hs]
    rfl
  have hread := read_of_readTerms hterms
  refine ⟨_, hread, fun k => ?_⟩
  simp only [checkSequence_eq_nil_iff]
  rw [forall_sequences_iff _ k (P := fun rs => Role.alternates rs = true)]
  constructor
  · intro h
    obtain ⟨hnotes, hproper⟩ := of_isExpression hread h
    exact ⟨hnotes, fun q hq => (hproper q hq).alternates⟩
  · rintro ⟨hnotes, h⟩
    exact isExpression_of_read hread hnotes h

theorem pieces_call : pieces "AND()".toList =
    [.lexeme (.function "AND"), .lexeme .opening, .lexeme .closing] := by
  have hspaced :
      Spaced [.lexeme (.function "AND"), .lexeme .opening, .lexeme .closing] :=
    ⟨rfl, by decide, trivial, by decide, trivial, by decide, trivial⟩
  exact pieces_layout hspaced

/-- A word in front of a pair of parentheses is a call, and an expression. -/
theorem isExpression_call : nesting 0 (lexemes (Scan.ofText "AND()").tokens) ≤ 1 ∧
    IsExpression [] (lexemes (Scan.ofText "AND()").tokens) := by
  have hnesting : nesting 0 (lexemes (Scan.ofText "AND()").tokens) ≤ 1 := by
    rw [Scan.ofText, pieces_call]
    decide
  have hread : read 1 [] "AND()" = .ok ⟨Scan.ofText "AND()",
      [.call 0 "AND" (some ⟨3, some 4⟩) []], []⟩ := by
    refine read_of_readTerms ?_
    rw [Scan.ofText, pieces_call]
    rfl
  obtain ⟨formula, hformula, hiff⟩ := @isExpression_iff 1 [] "AND()" (by exact_mod_cast hnesting)
  obtain rfl := Except.ok.inj (hread.symm.trans hformula)
  exact ⟨hnesting, (hiff 0).mpr ⟨rfl, by decide⟩⟩

end Formula
end Formulary
