/-
# Tokens of an outline are read into it

Tokens that show the layout of a sequence are read, behind any terms and with any parentheses open,
into terms whose outline is what comes back of the sequence, and nothing is noted. It takes a limit
that the nesting of the sequence does not exceed, and that no call of `AND`, `OR` or `NOT` stands
behind an operand.

Key definitions: `Outline.Named`, `Outline.Readable`, `Progress.pushAll`.
Key theorems: `Progress.read_sequence`, `readTerms_of_shows`.
-/
import Formulary.Proofs.Outline.Reread
import Formulary.Proofs.Term.Outline

namespace Formulary

namespace Outline

/-- Whether the word of an operator or a call is the word of one. -/
def Named : Outline → Prop
  | operator symbol => isOperator symbol = true
  | call name _ => isFunctionName name = true
  | reference _ | value _ | group _ => True

/-- A sequence that is read as it is meant, as far as calls are concerned; `before` tells whether an
operand stands before it. -/
def Readable (before : Bool) (os : List Outline) : Prop :=
  (∀ o ∈ os, o.Named) ∧ Role.callsFit before (os.map role) = true

theorem named_of_sound {catalog : Catalog} {o : Outline} (h : o.Sound catalog) : o.Named := by
  cases o with
  | operator symbol => exact h
  | call name arguments => exact h
  | _ => trivial

theorem Readable.tail {before : Bool} {o : Outline} {rest : List Outline}
    (h : Readable before (o :: rest)) : Readable o.isOperand rest := by
  obtain ⟨hnamed, hfit⟩ := h
  rw [List.map_cons, Role.callsFit, Bool.and_eq_true, isOperand_role] at hfit
  exact ⟨fun u hu => hnamed u (List.mem_cons_of_mem _ hu), hfit.2⟩

/-- A call of `AND`, `OR` or `NOT` in a readable sequence has no operand before it. -/
theorem Readable.call {before : Bool} {name : String} {arguments : List (List Outline)}
    {rest : List Outline} (h : Readable before (call name arguments :: rest)) :
    (isOperator name && before) = false := by
  have hfit := h.2
  rw [List.map_cons, Role.callsFit, Bool.and_eq_true] at hfit
  by_cases hname : isOperator name = true
  · simpa [role, Role.ofCall, hname] using hfit.1
  · simp [hname]

theorem Readable.single {before : Bool} {o : Outline} {rest : List Outline}
    (h : Readable before (o :: rest)) : Readable before [o] := by
  obtain ⟨hnamed, hfit⟩ := h
  rw [List.map_cons, Role.callsFit, Bool.and_eq_true] at hfit
  refine ⟨fun u hu => ?_, ?_⟩
  · obtain rfl := List.mem_singleton.mp hu
    exact hnamed u List.mem_cons_self
  · rw [List.map_cons, Role.callsFit, Bool.and_eq_true]
    exact ⟨hfit.1, rfl⟩

/-- The first mark of a part closes nothing, and opens a group if it opens anything. -/
theorem exists_solid_cons (o : Outline) : ∃ m ms, o.solid = m :: ms ∧ m ≠ .closing ∧
    (m = .opening → startsGroup [o] = true) := by
  cases o with
  | call name arguments => exact ⟨_, _, solid_call name arguments, by simp, by simp⟩
  | group body => exact ⟨_, _, solid_group body, by simp, fun _ => rfl⟩
  | _ => exact ⟨_, _, rfl, by simp, by simp⟩

/-- An empty argument list and a single empty argument are the arguments that show nothing. -/
theorem sole_argumentReread {arguments : List (List Outline)}
    (h : arguments = [] ∨ arguments = [[]]) : sole (argumentReread arguments) = [] := by
  rcases h with rfl | rfl <;> rfl

theorem sole_argumentReread_of_ne {arguments : List (List Outline)} (h : arguments ≠ [[]]) :
    sole (argumentReread arguments) = argumentReread arguments := by
  rcases arguments with _ | ⟨a, _ | ⟨b, rest⟩⟩
  · rfl
  · have ha : sequenceReread false a ≠ [] := by
      refine sequenceReread_ne_nil fun hnil => h ?_
      rw [hnil]
    simp only [argumentReread, sole]
    split
    · next heq => exact (ha (List.cons.inj heq).1).elim
    · rfl
  · simp [argumentReread, sole]

end Outline

namespace Token

variable {catalog : Catalog}

theorem startsOpening_of_shows {tokens rest : List Token} {os : List Outline}
    (h : List.Forall₂ (Shows catalog) tokens (Outline.sequenceSolid os))
    (hos : Outline.startsGroup os = false) (hrest : startsOpening rest = false) :
    startsOpening (tokens ++ rest) = false := by
  cases os with
  | nil =>
    obtain rfl := List.forall₂_nil_right_iff.mp h
    exact hrest
  | cons o os =>
    obtain ⟨m, ms, hsolid, -, hopening⟩ := o.exists_solid_cons
    rw [Outline.sequenceSolid_cons, hsolid, List.cons_append] at h
    obtain ⟨⟨l, p⟩, tokens, hm, -, rfl⟩ := List.forall₂_cons_right_iff.mp h
    cases l with
    | opening =>
      have hgroup := hopening (Option.some.inj hm.1).symm
      cases o with
      | group body => cases hos
      | _ => cases hgroup
    | _ => rfl

/-- Arguments that show anything show no closing parenthesis first. -/
theorem startsClosing_of_shows {tokens : List Token} (rest : List Token)
    {arguments : List (List Outline)}
    (h : List.Forall₂ (Shows catalog) tokens (Outline.argumentSolid arguments))
    (hnil : arguments ≠ []) (hempty : arguments ≠ [[]]) :
    tokens ++ rest ≠ [] ∧ startsClosing (tokens ++ rest) = false := by
  obtain ⟨m, ms, hsolid, hm⟩ : ∃ m ms, Outline.argumentSolid arguments = m :: ms ∧
      m ≠ .closing := by
    rcases arguments with _ | ⟨_ | ⟨o, os⟩, _ | ⟨b, as⟩⟩
    · exact (hnil rfl).elim
    · exact (hempty rfl).elim
    · exact ⟨_, _, Outline.argumentSolid_cons_cons [] b as, by simp⟩
    · obtain ⟨m, ms, hsolid, hm, -⟩ := o.exists_solid_cons
      have hcons := Outline.sequenceSolid_cons o os
      rw [hsolid] at hcons
      exact ⟨m, _, hcons, hm⟩
    · obtain ⟨m, ms, hsolid, hm, -⟩ := o.exists_solid_cons
      have hcons := Outline.argumentSolid_cons_cons (o :: os) b as
      rw [Outline.sequenceSolid_cons, hsolid] at hcons
      exact ⟨m, _, hcons, hm⟩
  rw [hsolid] at h
  obtain ⟨⟨l, p⟩, tokens, hshows, -, rfl⟩ := List.forall₂_cons_right_iff.mp h
  refine ⟨List.cons_ne_nil _ _, ?_⟩
  cases l with
  | closing => exact (hm (Option.some.inj hshows.1).symm).elim
  | _ => rfl

end Token

namespace Progress

open Outline

/-- Puts terms behind the innermost sequence. -/
def pushAll (terms : List Term) (s : Progress) : Progress :=
  { s with body := terms.reverse ++ s.body }

theorem pushAll_push (term : Term) (terms : List Term) (s : Progress) :
    (s.push term).pushAll terms = s.pushAll (term :: terms) := by
  simp [pushAll, push]

theorem followsOperand_push (term : Term) (s : Progress) :
    (s.push term).followsOperand = term.isOperand := rfl

theorem followsOperand_enter (opened : Opened) (opening : Nat) (s : Progress) :
    (s.enter opened opening).followsOperand = false := rfl

/-- A parenthesis that is opened and closed around terms. -/
theorem leave_pushAll_enter (opened : Opened) (opening closing : Nat) (terms : List Term)
    (s : Progress) : ((s.enter opened opening).pushAll terms).leave closing =
      s.push (Frame.close ⟨opened, opening, s.body⟩ (some closing) terms.reverse) := by
  simp [pushAll, enter, leave, push]

theorem close_group (opening : Nat) (outer : List Term) (closing : Option Nat)
    (terms : List Term) : Frame.close ⟨.group, opening, outer⟩ closing terms.reverse =
      .group ⟨opening, closing⟩ terms := by
  simp [Frame.close]

theorem close_call (position : Nat) (name : String) (arguments : List (List Term)) (opening : Nat)
    (outer : List Term) (closing : Option Nat) (terms : List Term) :
    Frame.close ⟨.call position name arguments, opening, outer⟩ closing terms.reverse =
      .call position name (some ⟨opening, closing⟩) (arguments.reverse ++ [terms]) := by
  simp [Frame.close]

variable {limit : Int} {catalog : Catalog}

/-- What reading the tokens of a sequence comes to. -/
def ReadsInto (limit : Int) (catalog : Catalog) (tokens rest : List Token) (s : Progress)
    (os : List Outline) : Prop :=
  ∃ terms, Term.outlines terms = os ∧
    read limit catalog (tokens ++ rest) s = read limit catalog rest (s.pushAll terms)

/-- A sequence is read part by part. -/
theorem ReadsInto.cons {ts us rest : List Token} {s : Progress} {term : Term} {os : List Outline}
    (hterm : read limit catalog (ts ++ (us ++ rest)) s =
      read limit catalog (us ++ rest) (s.push term))
    (hrest : ReadsInto limit catalog us rest (s.push term) os) :
    ReadsInto limit catalog (ts ++ us) rest s (term.outline :: os) := by
  obtain ⟨terms, houtlines, hread⟩ := hrest
  refine ⟨term :: terms, by rw [Term.outlines, houtlines], ?_⟩
  rw [List.append_assoc, hterm, hread, pushAll_push]

/-- The inside of a parenthesis is read, and the parenthesis is closed. -/
theorem ReadsInto.closed {ts rest : List Token} {s : Progress} {opened : Opened} {opening : Nat}
    {os : List Outline} (closing : Nat)
    (h : ReadsInto limit catalog ts (⟨.closing, closing⟩ :: rest) (s.enter opened opening) os) :
    ∃ terms, Term.outlines terms = os ∧
      read limit catalog (ts ++ ⟨.closing, closing⟩ :: rest) (s.enter opened opening) =
        read limit catalog rest
          (s.push (Frame.close ⟨opened, opening, s.body⟩ (some closing) terms.reverse)) := by
  obtain ⟨terms, houtlines, hread⟩ := h
  exact ⟨terms, houtlines, by rw [hread, read_closing, leave_pushAll_enter]⟩

/-- A call whose arguments show nothing, or are read behind its parenthesis. -/
theorem read_callTokens {name : String} {position opening closing : Nat}
    {arguments : List (List Outline)} {ts rest : List Token} {s : Progress} {args : List (List Term)}
    (hts : List.Forall₂ (Token.Shows catalog) ts (argumentSolid arguments))
    (hlimit : (s.frames.length : Int) + 1 ≤ limit)
    (hword : (isOperator name && s.followsOperand) = false)
    (hargs : Term.argumentOutlines args = argumentReread arguments)
    (hread : arguments ≠ [] → read limit catalog (ts ++ ⟨.closing, closing⟩ :: rest)
        (s.enter (.call position name []) opening) =
      read limit catalog rest (s.push (.call position name (some ⟨opening, some closing⟩) args))) :
    ∃ args', Term.argumentOutlines args' = sole (argumentReread arguments) ∧
      read limit catalog (⟨.function name, position⟩ :: ⟨.opening, opening⟩ ::
          (ts ++ ⟨.closing, closing⟩ :: rest)) s =
        read limit catalog rest
          (s.push (.call position name (some ⟨opening, some closing⟩) args')) := by
  by_cases hempty : arguments = [] ∨ arguments = [[]]
  · have hsolid : argumentSolid arguments = [] := by rcases hempty with rfl | rfl <;> rfl
    rw [hsolid] at hts
    obtain rfl := List.forall₂_nil_right_iff.mp hts
    exact ⟨[], (sole_argumentReread hempty).symm, read_bareCall hlimit hword closing⟩
  · obtain ⟨hnil, hsingle⟩ := not_or.mp hempty
    obtain ⟨hne, hclosing⟩ :=
      Token.startsClosing_of_shows (⟨.closing, closing⟩ :: rest) hts hnil hsingle
    refine ⟨args, by rw [hargs, sole_argumentReread_of_ne hsingle], ?_⟩
    rw [read_call hlimit hword hne hclosing]
    exact hread hnil

/-- A function name that is not infix and the group behind it are read as a call. -/
theorem ReadsInto.joined {word : String} {position opening closing : Nat} {body os : List Outline}
    {ts us rest : List Token} {s : Progress} (hword : isFunctionName word = true)
    (hfollows : s.followsOperand = false) (hlimit : (s.frames.length : Int) + 1 ≤ limit)
    (hts : List.Forall₂ (Token.Shows catalog) ts (argumentSolid [body]))
    (hbody : ReadsInto limit catalog ts (⟨.closing, closing⟩ :: (us ++ rest))
      (s.enter (.call position word []) opening) (sequenceReread false body))
    (hbehind : ∀ arguments, ReadsInto limit catalog us rest
      (s.push (.call position word (some ⟨opening, some closing⟩) arguments)) os) :
    ReadsInto limit catalog
      (⟨.function word, position⟩ :: ⟨.opening, opening⟩ :: (ts ++ ⟨.closing, closing⟩ :: us)) rest s
      (joinWord s.followsOperand word (sequenceReread false body) ++ os) := by
  obtain ⟨terms, houtlines, hread⟩ := hbody.closed closing
  rw [close_call] at hread
  have harguments : Term.argumentOutlines [terms] = argumentReread [body] := by
    rw [Term.argumentOutlines, Term.argumentOutlines, houtlines]
    rfl
  obtain ⟨arguments, hsole, hcall⟩ := read_callTokens hts hlimit
    (by rw [hfollows, Bool.and_false]) harguments fun _ => hread
  have hjoined : joinWord s.followsOperand word (sequenceReread false body) =
      [(Term.call position word (some ⟨opening, some closing⟩) arguments).outline] := by
    rw [joinWord, if_pos (by rw [hword, hfollows]; rfl), Term.outline, hsole]
    rfl
  have htokens : (⟨.function word, position⟩ :: ⟨.opening, opening⟩ ::
      (ts ++ ⟨.closing, closing⟩ :: us) : List Token) =
      (⟨.function word, position⟩ :: ⟨.opening, opening⟩ :: (ts ++ [⟨.closing, closing⟩])) ++ us := by
    simp
  rw [hjoined, htokens]
  exact ReadsInto.cons (by simpa using hcall) (hbehind arguments)

mutual

/-- The tokens of a part are read into what comes back of it, where no group behind an operator makes
the two a call. -/
theorem read_part : ∀ {o : Outline} {tokens : List Token} (rest : List Token) {s : Progress},
    List.Forall₂ (Token.Shows catalog) tokens o.solid → Readable s.followsOperand [o] →
    (∀ q ∈ o.inner, Readable false q) → (s.frames.length : Int) + o.height ≤ max limit s.frames.length →
    (∀ symbol, o = operator symbol → Token.startsOpening rest = true →
      (s.frames.length : Int) + 1 ≤ limit ∧ (isFunctionName symbol && !s.followsOperand) = false) →
    ∃ term : Term, term.outline = o.reread ∧
      read limit catalog (tokens ++ rest) s = read limit catalog rest (s.push term)
  | reference id, tokens, rest, s, hshows, _, _, _, _ => by
    obtain ⟨t, rfl, ht⟩ := Token.shows_singleton hshows
    obtain ⟨name, found, position, rfl, hfound, rfl⟩ := Token.eq_reference_of_shows ht
    exact ⟨.reference position found.id, rfl, read_reference hfound⟩
  | value number, tokens, rest, s, hshows, _, _, _, _ => by
    obtain ⟨t, rfl, ht⟩ := Token.shows_singleton hshows
    obtain ⟨literal, position, rfl⟩ := Token.eq_value_of_shows ht
    exact ⟨.value position number, rfl, read_value literal number⟩
  | operator symbol, tokens, rest, s, hshows, ho, _, _, hopening => by
    obtain ⟨t, rfl, ht⟩ := Token.shows_singleton hshows
    obtain ⟨position, rfl⟩ := Token.eq_word_of_shows ht
    exact ⟨.operator position symbol, rfl,
      read_word (ho.1 _ List.mem_cons_self) (hopening symbol rfl)⟩
  | call name arguments, tokens, rest, s, hshows, ho, hinner, hlimit, _ => by
    have hname : isFunctionName name = true := ho.1 _ List.mem_cons_self
    simp only [height] at hlimit
    obtain ⟨position, opening, closing, ts, rfl, hts⟩ := Token.eq_call_of_shows hshows
    obtain ⟨args, hargs, hread⟩ := read_arguments rest s.frames s.body s.notes position name []
      opening closing hts hinner (by omega)
    obtain ⟨args', hargs', hcall⟩ := read_callTokens hts (by omega) ho.call hargs hread
    refine ⟨.call position name (some ⟨opening, some closing⟩) args', ?_, ?_⟩
    · rw [Term.outline, hargs', reread]
    · simpa [hname] using hcall
  | group body, tokens, rest, s, hshows, _, hinner, hlimit, _ => by
    simp only [height] at hlimit
    obtain ⟨opening, closing, ts, rfl, hts⟩ := Token.eq_group_of_shows hshows
    have hbody := read_sequence (⟨.closing, closing⟩ :: rest) (s.enter .group opening) hts
      (hinner body List.mem_cons_self) (fun q hq => hinner q (List.mem_cons_of_mem _ hq))
      (by simp only [enter, List.length_cons]; omega) rfl
    obtain ⟨terms, houtlines, hread⟩ := hbody.closed closing
    rw [followsOperand_enter] at houtlines
    refine ⟨.group ⟨opening, some closing⟩ terms, by rw [Term.outline, houtlines, reread], ?_⟩
    simp only [List.cons_append, List.append_assoc, List.nil_append]
    rw [read_opening (by omega), hread, close_group]

/-- **The tokens of a sequence are read into what comes back of it**, and nothing is noted. -/
theorem read_sequence : ∀ {os : List Outline} {tokens : List Token} (rest : List Token)
    (s : Progress),
    List.Forall₂ (Token.Shows catalog) tokens (sequenceSolid os) →
    Readable s.followsOperand os → (∀ q ∈ sequenceInner os, Readable false q) →
    (s.frames.length : Int) + sequenceHeight os ≤ max limit s.frames.length → Token.startsOpening rest = false →
    ReadsInto limit catalog tokens rest s (sequenceReread s.followsOperand os)
  | [], tokens, rest, s, hshows, _, _, _, _ => by
    obtain rfl := List.forall₂_nil_right_iff.mp hshows
    exact ⟨[], rfl, rfl⟩
  | o :: os, tokens, rest, s, hshows, hos, hinner, hlimit, hrest => by
    simp only [sequenceHeight] at hlimit
    rw [sequenceSolid_cons] at hshows
    obtain ⟨ts, us, rfl, hts, hus⟩ := Token.shows_append hshows
    by_cases hjoin : ∃ symbol, o = operator symbol ∧
        (isFunctionName symbol && !s.followsOperand && startsGroup os) = true
    · -- The word and the group behind it are read as a call.
      obtain ⟨symbol, rfl, hjoin⟩ := hjoin
      simp only [Bool.and_eq_true, Bool.not_eq_true'] at hjoin
      obtain ⟨⟨hname, hfollows⟩, hgroup⟩ := hjoin
      rcases os with _ | ⟨_ | _ | _ | _ | body, os⟩ <;> try cases hgroup
      simp only [sequenceHeight, height] at hlimit
      obtain ⟨t, rfl, ht⟩ := Token.shows_singleton hts
      obtain ⟨position, rfl⟩ := Token.eq_word_of_shows ht
      rw [sequenceSolid_cons] at hus
      obtain ⟨gs, vs, rfl, hgs, hvs⟩ := Token.shows_append hus
      obtain ⟨opening, closing, bs, rfl, hbs⟩ := Token.eq_group_of_shows hgs
      have hbody := read_sequence (⟨.closing, closing⟩ :: (vs ++ rest))
        (s.enter (.call position symbol []) opening) hbs
        (hinner body (by simp [sequenceInner, Outline.inner]))
        (fun q hq => hinner q (by simp [sequenceInner, Outline.inner, hq]))
        (by simp only [enter, List.length_cons]; omega) rfl
      have hbehind (arguments : List (List Term)) : ReadsInto limit catalog vs rest
          (s.push (.call position symbol (some ⟨opening, some closing⟩) arguments))
          (sequenceReread true os) :=
        read_sequence rest _ hvs hos.tail.tail
          (fun q hq => hinner q (by simp [sequenceInner, Outline.inner, hq]))
          (by simp only [push]; omega) hrest
      have hjoined := ReadsInto.joined hname hfollows (by omega) hbs hbody hbehind
      rw [if_pos hname, sequenceReread]
      simpa using hjoined
    · -- The first part is read by itself.
      obtain ⟨term, hterm, hread⟩ := read_part (us ++ rest) hts hos.single
        (fun q hq => hinner q (List.mem_append_left _ hq)) (by omega) (by
          rintro symbol rfl hopening
          by_cases hgroup : startsGroup os = true
          · refine ⟨?_, by simpa [hgroup] using hjoin⟩
            rcases os with _ | ⟨_ | _ | _ | _ | body, os⟩ <;> try cases hgroup
            simp only [sequenceHeight, height] at hlimit
            omega
          · have hnone := Token.startsOpening_of_shows hus (by simpa using hgroup) hrest
            exact (Bool.false_ne_true (hnone.symm.trans hopening)).elim)
      have hoperand : term.isOperand = o.isOperand := by
        rw [← Term.isOperand_outline, hterm, isOperand_reread]
      have hbehind := read_sequence rest (s.push term) hus
        (by rw [followsOperand_push, hoperand]; exact hos.tail)
        (fun q hq => hinner q (List.mem_append_right _ hq)) (by simp only [push]; omega) hrest
      rw [followsOperand_push, hoperand] at hbehind
      have hreread : sequenceReread s.followsOperand (o :: os) =
          o.reread :: sequenceReread o.isOperand os := by
        cases o with
        | operator symbol =>
          exact sequenceReread_operator fun hword => hjoin ⟨symbol, rfl, hword⟩
        | _ => rfl
      rw [hreread, ← hterm]
      exact hbehind.cons hread

/-- The tokens of arguments are read into what comes back of them. -/
theorem read_arguments : ∀ {as : List (List Outline)} {tokens : List Token} (rest : List Token)
    (frames : List Frame) (outer : List Term) (notes : List Diagnostic) (start : Nat)
    (name : String) (done : List (List Term)) (opening closing : Nat),
    List.Forall₂ (Token.Shows catalog) tokens (argumentSolid as) →
    (∀ q ∈ argumentInner as, Readable false q) →
    (frames.length : Int) + 1 + argumentHeight as ≤ limit →
    ∃ args, Term.argumentOutlines args = argumentReread as ∧ (as ≠ [] →
      read limit catalog (tokens ++ ⟨.closing, closing⟩ :: rest)
          ⟨⟨.call start name done, opening, outer⟩ :: frames, [], notes⟩ =
        read limit catalog rest
          ⟨frames, .call start name (some ⟨opening, some closing⟩) (done.reverse ++ args) :: outer,
            notes⟩)
  | [], _, _, _, _, _, _, _, _, _, _, _, _, _ => ⟨[], rfl, fun hne => (hne rfl).elim⟩
  | [a], tokens, rest, frames, outer, notes, start, name, done, opening, closing, hshows, hinner,
      hlimit => by
    have ha := read_sequence (⟨.closing, closing⟩ :: rest)
      ⟨⟨.call start name done, opening, outer⟩ :: frames, [], notes⟩ hshows
      (hinner a List.mem_cons_self)
      (fun q hq => hinner q (List.mem_cons_of_mem _ (List.mem_append_left _ hq)))
      (by simp only [argumentHeight, List.length_cons] at hlimit ⊢; omega) rfl
    obtain ⟨terms, houtlines, hread⟩ := ha
    refine ⟨[terms], ?_, fun _ => ?_⟩
    · rw [Term.argumentOutlines, houtlines]
      rfl
    · rw [hread, read_closing]
      simp [pushAll, leave, Frame.close]
  | a :: b :: as, tokens, rest, frames, outer, notes, start, name, done, opening, closing, hshows,
      hinner, hlimit => by
    rw [argumentSolid_cons_cons] at hshows
    obtain ⟨ts, us, rfl, hts, hus⟩ := Token.shows_append hshows
    obtain ⟨t, vs, ht, hvs, rfl⟩ := List.forall₂_cons_right_iff.mp hus
    obtain ⟨comma, rfl⟩ := Token.eq_bracket_of_shows ht rfl
    have ha := read_sequence (⟨.comma, comma⟩ :: (vs ++ ⟨.closing, closing⟩ :: rest))
      ⟨⟨.call start name done, opening, outer⟩ :: frames, [], notes⟩ hts
      (hinner a List.mem_cons_self)
      (fun q hq => hinner q (List.mem_cons_of_mem _ (List.mem_append_left _ hq)))
      (by simp only [argumentHeight, List.length_cons] at hlimit ⊢; omega) rfl
    obtain ⟨terms, houtlines, hread⟩ := ha
    obtain ⟨args, hargs, hrest⟩ := read_arguments rest frames outer notes start name
      (terms :: done) opening closing hvs
      (fun q hq => hinner q (List.mem_cons_of_mem _ (List.mem_append_right _ hq)))
      (by simp only [argumentHeight] at hlimit ⊢; omega)
    refine ⟨terms :: args, ?_, fun _ => ?_⟩
    · rw [Term.argumentOutlines, houtlines, hargs]
      rfl
    · rw [List.append_assoc, List.cons_append, hread, read_comma]
      simp only [pushAll, separate, List.append_nil, List.reverse_reverse]
      rw [hrest (List.cons_ne_nil _ _)]
      simp

end

end Progress

/-- **Tokens that show a sequence are read into what comes back of it**, from the start of a text to
its end. -/
theorem readTerms_of_shows {limit : Int} {catalog : Catalog} {os : List Outline}
    {tokens : List Token} (hshows : List.Forall₂ (Token.Shows catalog) tokens (Outline.sequenceSolid os))
    (hos : ∀ q ∈ Outline.sequences os, Outline.Readable false q)
    (hlimit : (Outline.sequenceHeight os : Int) ≤ max limit 0) :
    ∃ terms, readTerms limit catalog tokens = .ok (terms, []) ∧
      Term.outlines terms = Outline.sequenceReread false os := by
  obtain ⟨terms, houtlines, hread⟩ := Progress.read_sequence [] .start hshows
    (hos os List.mem_cons_self) (fun q hq => hos q (List.mem_cons_of_mem _ hq))
    (by simpa [Progress.start] using hlimit) rfl
  refine ⟨terms, ?_, houtlines⟩
  rw [List.append_nil, Progress.read] at hread
  unfold readTerms
  rw [hread]
  simp [Progress.pushAll, Progress.start, Progress.closeAll]

end Formulary
