/-
# Spans and calls

The spans of a text are found from the tokens alone, by what stands right before a parenthesis, and the
calls of its formula from the terms before it. Both say the same of a text as long as every token that
may end an operand, or may start one, becomes part of the formula (`Formula.callSpans_eq`): the stack of
brackets is that of the open parentheses after every step, and the spans found so far, with those ahead,
are those of the calls that are closed.

Key definitions: `Fault.misleads`, `Call.Stands`, `Progress.Follows`.
Key theorems: `Progress.Step.spans`, `Progress.Step.standing`, `Formula.callSpans_eq`.
-/
import Formulary.Proofs.Term.Account
import Formulary.Proofs.Term.Calls
import Formulary.Proofs.Token.Nested

namespace Formulary

open CallSpan (Bracket closedAmong parens)
open Term

/-! ### The tokens of a call -/

/-- The number of parentheses that are open behind tokens, where `level` are open in front of them; none
if the tokens close one more. -/
def levelBehind : Nat → List Token → Option Nat
  | level, [] => some level
  | level, ⟨.opening, _⟩ :: rest => levelBehind (level + 1) rest
  | 0, ⟨.closing, _⟩ :: _ => none
  | level + 1, ⟨.closing, _⟩ :: rest => levelBehind level rest
  | level, _ :: rest => levelBehind level rest

theorem levelBehind_append (tokens more : List Token) (level : Nat) :
    levelBehind level (tokens ++ more) =
      (levelBehind level tokens).bind fun level => levelBehind level more := by
  fun_induction levelBehind level tokens <;> simp_all [levelBehind]

/-- Whether a call stands in tokens: its name, right behind it an opening parenthesis, and the
parenthesis that closes this one; or none that does. -/
inductive Call.Stands (tokens : List Token) : Call → Prop
  | closed {name position opening closing depth} (before inside rest : List Token)
      (htokens : tokens = before ++ ⟨.function name, position⟩ :: ⟨.opening, opening⟩ :: inside ++
        ⟨.closing, closing⟩ :: rest)
      (hinside : levelBehind 0 inside = some 0) :
      Stands tokens ⟨name, position, some ⟨opening, some closing⟩, depth⟩
  | unclosed {name position opening depth} (before inside : List Token)
      (htokens : tokens = before ++ ⟨.function name, position⟩ :: ⟨.opening, opening⟩ :: inside)
      (hinside : (levelBehind 0 inside).isSome = true) :
      Stands tokens ⟨name, position, some ⟨opening, none⟩, depth⟩

theorem Call.start_of_span? {call : Call} {span : CallSpan} (h : call.span? = some span) :
    span.start = call.position := by
  obtain ⟨name, position, _ | ⟨opening, _ | closing⟩, depth⟩ := call
  · cases h
  · cases h
  · exact congrArg CallSpan.start (Option.some.inj h).symm

/-- Whether the token of a note says something else about the operand at its place than the terms. -/
def Fault.misleads : Fault → Bool
  | unknownName _ | missingArguments _ | unmatchedClosing | strayComma => true
  | dropped _ | unclosedCall _ | unclosedGroup => false

namespace Progress

variable {limit : Int} {catalog : Catalog} {s s' : Progress} {tokens tokens' : List Token}
  {before previous : Option Token}

/-! ### Brackets and open parentheses -/

/-- The spans of the calls that are closed. -/
def spans (s : Progress) : List CallSpan :=
  s.calls.filterMap Call.span?

/-- The brackets of the open parentheses. -/
def brackets (s : Progress) : List Bracket :=
  s.frames.map Frame.bracket

/-- Whether the last two tokens show what the terms show, if there are tokens ahead. -/
structure Follows (before previous : Option Token) (tokens : List Token) (s : Progress) : Prop where
  operand : tokens ≠ [] →
    s.followsOperand = (previous.map (·.lexeme.endsOperand)).getD false
  /-- A parenthesis that is next opens a group. -/
  group : Token.startsOpening tokens = true → ∀ place, Bracket.behind before previous place = .group

theorem Follows.behind {name : String} {position opening : Nat} {rest : List Token}
    (h : Follows before previous (⟨.function name, position⟩ :: rest) s)
    (hword : (isOperator name && s.followsOperand) = false) :
    Bracket.behind previous (some ⟨.function name, position⟩) opening =
      .call name position opening := by
  rw [h.operand (List.cons_ne_nil _ _)] at hword
  exact if_neg (by simp [hword])

/-- Tokens that are no parentheses are passed over. -/
theorem parens_cons {t : Token} (h : t.lexeme ≠ .opening) (hclosing : t.lexeme ≠ .closing)
    (rest : List Token) : parens before previous (t :: rest) = parens previous (some t) rest := by
  obtain ⟨l, position⟩ := t
  cases l with
  | opening => exact (h rfl).elim
  | closing => exact (hclosing rfl).elim
  | _ => rfl

/-- A function name and the parenthesis of its call. -/
theorem parens_call {name : String} {position opening : Nat} {rest : List Token}
    (h : Follows before previous (⟨.function name, position⟩ :: ⟨.opening, opening⟩ :: rest) s)
    (hword : (isOperator name && s.followsOperand) = false) :
    parens before previous (⟨.function name, position⟩ :: ⟨.opening, opening⟩ :: rest) =
      .opening (.call name position opening) opening ::
        parens (some ⟨.function name, position⟩) (some ⟨.opening, opening⟩) rest := by
  rw [parens_cons (by simp) (by simp), parens, h.behind hword]

theorem spans_push (term : Term) (s : Progress) :
    (s.push term).spans = s.spans ++ (term.calls (callDepth s.frames)).filterMap Call.span? := by
  rw [spans, calls_push, List.filterMap_append, spans]

/-- What is opened without an argument that is complete. -/
theorem spans_enter {opened : Opened} (h : opened.calls (callDepth s.frames) = []) (opening : Nat) :
    (s.enter opened opening).spans = s.spans := by
  rw [spans, calls_enter, h, List.append_nil, spans]

/-- Behind a token that is no function name a parenthesis opens a group. -/
theorem follows_of_token {t : Token} (h : ∀ name, t.lexeme ≠ .function name)
    (hoperand : s.followsOperand = t.lexeme.endsOperand) :
    Follows previous (some t) tokens s := by
  refine ⟨fun _ => hoperand, fun _ place => ?_⟩
  obtain ⟨l, position⟩ := t
  cases l with
  | function name => exact (h name rfl).elim
  | _ => rfl

/-- **After every step the brackets are those of the open parentheses**, and the spans of closed calls
and those ahead stay the same. -/
theorem Step.spans (hstep : Step limit catalog tokens s tokens' s')
    (hclean : ∀ d ∈ s'.notes, d.fault.misleads = false) (h : Follows before previous tokens s) :
    ∃ before' previous', Follows before' previous' tokens' s' ∧
      (s.spans ++ closedAmong s.brackets (parens before previous tokens)).Perm
        (s'.spans ++ closedAmong s'.brackets (parens before' previous' tokens')) := by
  cases hstep with
  | @word l word position _ _ hword hbehind =>
    refine ⟨previous, some ⟨l, position⟩, ?_, .of_eq ?_⟩
    · rcases hword with ⟨rfl, hoperator⟩ | rfl
      · refine ⟨fun _ => rfl, fun hopening place => ?_⟩
        have hoperand := hbehind word rfl hopening
        rw [h.operand (List.cons_ne_nil _ _)] at hoperand
        exact if_pos (by rw [hoperator, hoperand]; rfl)
      · exact follows_of_token (by simp) rfl
    · rw [parens_cons, spans_push]
      · exact congrArg (· ++ _) (List.append_nil _).symm
      · rcases hword with ⟨rfl, -⟩ | rfl <;> simp
      · rcases hword with ⟨rfl, -⟩ | rfl <;> simp
  | @reference name position _ _ =>
    unfold refer at hclean ⊢
    cases hfound : catalog.findByName? name with
    | none =>
      rw [hfound] at hclean
      cases hclean _ List.mem_cons_self
    | some found =>
      refine ⟨previous, _, follows_of_token (t := ⟨.reference name, position⟩) (by simp) rfl, .of_eq ?_⟩
      rw [parens_cons (by simp) (by simp), spans_push]
      exact congrArg (· ++ _) (List.append_nil _).symm
  | @value literal number position _ _ =>
    refine ⟨previous, _, follows_of_token (t := ⟨.value literal number, position⟩) (by simp) rfl,
      .of_eq ?_⟩
    rw [parens_cons (by simp) (by simp), spans_push]
    exact congrArg (· ++ _) (List.append_nil _).symm
  | missing => cases hclean _ List.mem_cons_self
  | @bareCall name position opening closing _ _ _ hcall =>
    refine ⟨some ⟨.opening, opening⟩, _,
      follows_of_token (t := ⟨.closing, closing⟩) (by simp) rfl, .of_eq ?_⟩
    rw [parens_call h hcall, closedAmong, spans_push, List.append_assoc]
    rfl
  | @unclosed name position opening _ _ hcall =>
    refine ⟨none, none, ⟨fun hne => (hne rfl).elim, fun hopening => by cases hopening⟩, .of_eq ?_⟩
    rw [parens_call h hcall, closedAmong, spans_push]
    exact congrArg (· ++ []) (List.append_nil _).symm
  | @call name position opening _ _ _ hcall _ =>
    refine ⟨some ⟨.function name, position⟩, _,
      follows_of_token (t := ⟨.opening, opening⟩) (by simp) rfl, .of_eq ?_⟩
    rw [parens_call h hcall, closedAmong, spans_enter rfl]
    rfl
  | @opening position _ _ _ =>
    refine ⟨previous, _, follows_of_token (t := ⟨.opening, position⟩) (by simp) rfl, .of_eq ?_⟩
    rw [parens, h.group rfl, closedAmong, spans_enter rfl]
    rfl
  | @closing position rest _ =>
    obtain ⟨_ | ⟨frame, frames⟩, body, notes⟩ := s
    · cases hclean _ List.mem_cons_self
    · refine ⟨previous, _, follows_of_token (t := ⟨.closing, position⟩) (by simp) ?_, ?_⟩
      · obtain ⟨⟨start, name, arguments⟩ | _, opening, outer⟩ := frame <;> rfl
      · have hleave := ((calls_leave frame frames body notes position).filterMap Call.span?).symm
        refine .trans ?_ (hleave.append_right _)
        obtain ⟨⟨start, name, arguments⟩ | _, opening, outer⟩ := frame
        · exact List.perm_middle
        · exact .refl _
  | @comma position _ _ =>
    obtain ⟨_ | ⟨⟨⟨start, name, arguments⟩ | _, opening, outer⟩, frames⟩, body, notes⟩ := s
    · cases hclean _ List.mem_cons_self
    · refine ⟨previous, _, follows_of_token (t := ⟨.comma, position⟩) (by simp) rfl, .of_eq ?_⟩
      rw [parens_cons (by simp) (by simp), Progress.spans, Progress.spans, calls_separate]
      rfl
    · cases hclean _ List.mem_cons_self

/-- **A run finds the spans of the calls that it closes.** -/
theorem Run.spans (hrun : Run limit catalog tokens s s')
    (hclean : ∀ d ∈ s'.notes, d.fault.misleads = false) (h : Follows before previous tokens s) :
    (s.spans ++ closedAmong s.brackets (parens before previous tokens)).Perm s'.spans := by
  induction hrun generalizing before previous with
  | done => exact .of_eq (List.append_nil _)
  | step hstep hrest ih =>
    obtain ⟨_, _, hfollows, hperm⟩ := hstep.spans (fun d hd => hclean d (hrest.notes_subset hd)) h
    exact hperm.trans (ih hclean hfollows)

theorem follows_start : Follows none none tokens .start :=
  ⟨fun _ => rfl, fun _ _ => rfl⟩

/-- Calls that are open have no span. -/
theorem filterMap_openCalls (frames : List Frame) :
    (openCalls frames).filterMap Call.span? = [] := by
  induction frames with
  | nil => rfl
  | cons frame frames ih =>
    rw [openCalls, List.filterMap_append, ih]
    obtain ⟨⟨position, name, arguments⟩ | _, opening, outer⟩ := frame <;> rfl

end Progress

/-! ### Where calls stand -/

/-- Whether the call of an open parenthesis stands in front of the tokens ahead, with so many more open
parentheses in it. -/
def Frame.StandsAt (all tokens : List Token) (level : Nat) (frame : Frame) : Prop :=
  ∀ position name arguments, frame.opened = .call position name arguments →
    ∃ before inside above, all = before ++ ⟨.function name, position⟩ ::
        ⟨.opening, frame.opening⟩ :: inside ++ tokens ∧
      levelBehind 0 inside = some above ∧ (tokens ≠ [] → above = level)

/-- Tokens are taken inside the parenthesis. -/
theorem Frame.StandsAt.move {all used tokens : List Token} {level above next : Nat} {frame : Frame}
    (h : frame.StandsAt all (used ++ tokens) level) (hne : used ≠ [])
    (hused : levelBehind level used = some above) (hnext : tokens ≠ [] → above = next) :
    frame.StandsAt all tokens next := by
  intro position name arguments hopened
  obtain ⟨before, inside, found, hall, hinside, hfound⟩ := h position name arguments hopened
  obtain rfl := hfound (List.append_ne_nil_of_left_ne_nil hne _)
  refine ⟨before, inside ++ used, above, by simp [hall], ?_, hnext⟩
  rw [levelBehind_append, hinside, Option.bind_some, hused]

namespace Progress

variable {limit : Int} {catalog : Catalog} {s s' : Progress} {all tokens tokens' : List Token}

/-- Whether all calls of the reader stand in the tokens. -/
structure Standing (all tokens : List Token) (s : Progress) : Prop where
  ahead : tokens <:+ all
  calls : ∀ call ∈ s.calls, call.Stands all
  frames : ∀ (level : Nat) (frame : Frame), s.frames[level]? = some frame →
    frame.StandsAt all tokens level

theorem Standing.push {term : Term} (used : List Token) (h : Standing all (used ++ tokens) s)
    (hne : used ≠ [])
    (hterm : ∀ call ∈ term.calls (callDepth s.frames), call.Stands all)
    (hused : ∀ level, ∃ above, levelBehind level used = some above ∧ (tokens ≠ [] → above = level)) :
    Standing all tokens (s.push term) := by
  refine ⟨(List.suffix_append _ _).trans h.ahead, fun call hcall => ?_, fun level frame hframe => ?_⟩
  · rw [calls_push] at hcall
    exact (List.mem_append.mp hcall).elim (h.calls call) (hterm call)
  · obtain ⟨above, hlevel, hnext⟩ := hused level
    exact (h.frames level frame hframe).move hne hlevel hnext

theorem Standing.enter {opened : Opened} {opening : Nat} (used : List Token)
    (h : Standing all (used ++ tokens) s) (hne : used ≠ []) (hcalls : opened.calls (callDepth s.frames) = [])
    (hused : ∀ level, levelBehind level used = some (level + 1))
    (hnew : Frame.StandsAt all tokens 0 ⟨opened, opening, s.body⟩) :
    Standing all tokens (s.enter opened opening) := by
  refine ⟨(List.suffix_append _ _).trans h.ahead, fun call hcall => ?_, fun level frame hframe => ?_⟩
  · rw [calls_enter, hcalls, List.append_nil] at hcall
    exact h.calls call hcall
  · cases level with
    | zero =>
      obtain rfl := Option.some.inj hframe
      exact hnew
    | succ level => exact (h.frames level frame hframe).move hne (hused level) fun _ => rfl

theorem Standing.leave {position : Nat} (h : Standing all (⟨.closing, position⟩ :: tokens) s)
    (hne : s.frames ≠ []) : Standing all tokens (s.leave position) := by
  obtain ⟨_ | ⟨frame, frames⟩, body, notes⟩ := s
  · exact (hne rfl).elim
  · refine ⟨(List.suffix_cons _ _).trans h.ahead, fun call hcall => ?_, fun level outer houter => ?_⟩
    · rw [(calls_leave frame frames body notes position).mem_iff, List.mem_append] at hcall
      refine hcall.elim (fun hcall => ?_) (h.calls call)
      obtain ⟨⟨start, name, arguments⟩ | _, opening, outer⟩ := frame
      · obtain rfl := Option.mem_some.mp (Option.mem_toList.mp hcall)
        obtain ⟨before, inside, above, hall, hinside, habove⟩ := h.frames 0 _ rfl start name arguments rfl
        obtain rfl := habove (List.cons_ne_nil _ _)
        exact .closed before inside tokens hall hinside
      · cases hcall
    · have hmove : outer.StandsAt all ([⟨.closing, position⟩] ++ tokens) (level + 1) :=
        h.frames (level + 1) outer houter
      exact hmove.move (List.cons_ne_nil _ _) rfl fun _ => rfl

theorem Standing.separate {position : Nat} (h : Standing all (⟨.comma, position⟩ :: tokens) s) :
    Standing all tokens (s.separate position) := by
  have hsame (level : Nat) (frame : Frame) (hframe : s.frames[level]? = some frame) :
      frame.StandsAt all tokens level := by
    have hmove : frame.StandsAt all ([⟨.comma, position⟩] ++ tokens) level := h.frames level frame hframe
    exact hmove.move (List.cons_ne_nil _ _) rfl fun _ => rfl
  refine ⟨(List.suffix_cons _ _).trans h.ahead, fun call hcall => ?_, fun level frame hframe => ?_⟩
  · rw [calls_separate] at hcall
    exact h.calls call hcall
  · obtain ⟨_ | ⟨⟨⟨start, name, arguments⟩ | _, opening, outer⟩, frames⟩, body, notes⟩ := s
    · exact hsame level frame hframe
    · cases level with
      | zero =>
        obtain rfl := Option.some.inj hframe
        intro position name arguments heq
        obtain ⟨rfl, rfl, -⟩ := Opened.call.inj heq
        exact hsame 0 _ rfl _ _ _ rfl
      | succ level => exact hsame (level + 1) frame hframe
    · exact hsame level frame hframe

/-- The calls of the reader still stand in the tokens after a step. -/
theorem Step.standing (hstep : Step limit catalog tokens s tokens' s')
    (hclean : ∀ d ∈ s'.notes, d.fault.misleads = false) (h : Standing all tokens s) :
    Standing all tokens' s' := by
  cases hstep with
  | @word l word position _ _ hword _ =>
    refine h.push [_] (List.cons_ne_nil _ _) (fun _ hcall => by cases hcall) fun level => ?_
    rcases hword with ⟨rfl, -⟩ | rfl <;> exact ⟨level, rfl, fun _ => rfl⟩
  | @reference name position _ _ =>
    unfold refer at hclean ⊢
    cases hfound : catalog.findByName? name with
    | none =>
      rw [hfound] at hclean
      cases hclean _ List.mem_cons_self
    | some found =>
      exact h.push [_] (List.cons_ne_nil _ _) (fun _ hcall => by cases hcall)
        fun level => ⟨level, rfl, fun _ => rfl⟩
  | value =>
    exact h.push [_] (List.cons_ne_nil _ _) (fun _ hcall => by cases hcall)
      fun level => ⟨level, rfl, fun _ => rfl⟩
  | missing => cases hclean _ List.mem_cons_self
  | @bareCall name position opening closing _ _ _ _ =>
    obtain ⟨before, hall⟩ := h.ahead
    refine h.push [_, _, _] (List.cons_ne_nil _ _) (fun call hcall => ?_)
      fun level => ⟨level, rfl, fun _ => rfl⟩
    obtain rfl := List.mem_singleton.mp hcall
    exact .closed before [] tokens' (by simp [← hall]) rfl
  | @unclosed name position opening _ _ _ =>
    obtain ⟨before, hall⟩ := h.ahead
    have hnoted : Standing all ([⟨.function name, position⟩, ⟨.opening, opening⟩] ++ [])
        (s.note (.unclosedCall name) opening) := ⟨h.ahead, h.calls, h.frames⟩
    refine hnoted.push _ (List.cons_ne_nil _ _) (fun call hcall => ?_)
      fun level => ⟨level + 1, rfl, fun hne => (hne rfl).elim⟩
    obtain rfl := List.mem_singleton.mp hcall
    exact .unclosed before [] hall.symm rfl
  | @call name position opening _ _ _ _ _ =>
    obtain ⟨before, hall⟩ := h.ahead
    refine h.enter [_, _] (List.cons_ne_nil _ _) rfl (fun level => rfl) ?_
    intro start found arguments hopened
    obtain ⟨rfl, rfl, -⟩ := Opened.call.inj hopened
    exact ⟨before, [], 0, by simp [← hall], rfl, fun _ => rfl⟩
  | opening =>
    refine h.enter [_] (List.cons_ne_nil _ _) rfl (fun level => rfl) ?_
    intro start found arguments hopened
    cases hopened
  | @closing position _ _ =>
    by_cases hframes : s.frames = []
    · rw [Progress.leave, hframes] at hclean
      cases hclean _ List.mem_cons_self
    · exact h.leave hframes
  | comma => exact h.separate

theorem standing_start (tokens : List Token) : Standing tokens tokens .start :=
  ⟨List.suffix_refl _, fun _ hcall => (by cases hcall), fun _ _ hframe => (by cases hframe)⟩

theorem Run.standing (hrun : Run limit catalog tokens s s')
    (hclean : ∀ d ∈ s'.notes, d.fault.misleads = false) (h : Standing all tokens s) :
    Standing all [] s' := by
  induction hrun with
  | done => exact h
  | step hstep hrest ih =>
    exact ih hclean (hstep.standing (fun d hd => hclean d (hrest.notes_subset hd)) h)

theorem mem_openCalls {call : Call} : ∀ {frames : List Frame}, call ∈ openCalls frames →
    ∃ (level : Nat) (frame : Frame) (depth : Nat), frames[level]? = some frame ∧
      frame.call? depth none = some call
  | frame :: frames, h => by
    rcases List.mem_append.mp h with h | h
    · exact ⟨0, frame, _, rfl, Option.mem_toList.mp h⟩
    · obtain ⟨level, outer, depth, houter, hcall⟩ := mem_openCalls h
      exact ⟨level + 1, outer, depth, houter, hcall⟩

/-- **All calls of a formula stand in the tokens**, those that are closed at the end of the text too. -/
theorem Standing.stands (h : Standing all [] s) :
    ∀ call ∈ sequenceCalls 0 (closeAll s.frames s.body s.notes).1, call.Stands all := by
  intro call hcall
  rw [(calls_closeAll _ _ _).mem_iff, List.mem_append] at hcall
  refine hcall.elim (h.calls call) fun hopen => ?_
  obtain ⟨level, ⟨⟨position, name, arguments⟩ | _, opening, outer⟩, depth, hframe, hcall⟩ :=
    mem_openCalls hopen
  · obtain rfl := Option.some.inj hcall
    obtain ⟨before, inside, above, hall, hinside, -⟩ := h.frames level _ hframe _ _ _ rfl
    rw [List.append_nil] at hall
    exact .unclosed before inside hall (by rw [hinside]; rfl)
  · cases hcall

end Progress

namespace Formula

variable {limit : Int} {catalog : Catalog} {text : String} {formula : Formula}

/-- The calls of a formula in reading order. -/
def calls (formula : Formula) : List Call :=
  sequenceCalls 0 formula.terms

/-- The functions of a formula are its calls. -/
theorem functions_calls (formula : Formula) (k : Nat) :
    List.Forall₂ (fun node call => node.function = some call.name ∧
        ((formula.store k).ancestors node.id).countP (·.kind = .function) = call.depth)
      ((formula.store k).nodes.filter (·.kind = .function)) formula.calls := by
  have hnodes : (formula.store k).nodes =
      (Tree.lineagesAll [] (sequenceTrees none k formula.terms)).map Prod.fst := by
    rw [Tree.map_fst_lineagesAll, store, Store.ofTerms_eq]
  have hancestors : ∀ found ∈ (Tree.lineagesAll [] (sequenceTrees none k formula.terms)).filter
      (fun found => isFunction found.1), (formula.store k).ancestors found.1.id = found.2 := by
    intro found hfound
    rw [store, Store.ofTerms_eq]
    exact Store.ancestors_of_mem_lineages (linked_sequenceTrees none k formula.terms)
      (Store.nodup_preorder_sequenceTrees k formula.terms) (List.mem_filter.mp hfound).1
  have hcalls := (List.forall₂_and_left _ _).mpr
    ⟨hancestors, sequenceCalls_lineages [] none k formula.terms⟩
  rw [hnodes, List.filter_map, List.forall₂_map_left_iff]
  refine hcalls.imp fun found call hcall => ⟨hcall.2.1, ?_⟩
  rw [hcall.1]
  exact hcall.2.2

/-- The spans of the calls are in the order in which the calls start. -/
theorem pairwise_spans (h : read limit catalog text = .ok formula) :
    (formula.calls.filterMap Call.span?).Pairwise fun a b => a.start < b.start := by
  obtain ⟨-, hterms⟩ := readTerms_of_read h
  have hcalls : (formula.calls.map Call.position).Pairwise (· < ·) := by
    refine List.Pairwise.sublist (sublist_sequenceCalls 0 formula.terms) ?_
    rw [(yields_of_readTerms hterms).places]
    exact (pairwise_tokens text).sublist (List.filter_sublist.map _)
  rw [List.pairwise_filterMap]
  refine (List.pairwise_map.mp hcalls).imp fun {a b} hlt first hfirst second hsecond => ?_
  rwa [Call.start_of_span? hfirst, Call.start_of_span? hsecond]

/-- **The spans of a text are those of the calls of its formula** that are closed, in the order of its
functions, if no token is noted that says something else about operands than the terms. -/
theorem callSpans_eq (h : read limit catalog text = .ok formula)
    (hclean : ∀ d ∈ formula.diagnostics, d.fault.misleads = false) (k : Nat) :
    callSpans text = formula.calls.filterMap Call.span? ∧
      (∀ call ∈ formula.calls, call.Stands (Scan.ofText text).tokens) ∧
      List.Forall₂ (fun node call => node.function = some call.name ∧
          ((formula.store k).ancestors node.id).countP (·.kind = .function) = call.depth)
        ((formula.store k).nodes.filter (·.kind = .function)) formula.calls := by
  have hpairwise := pairwise_spans h
  obtain ⟨-, hterms⟩ := readTerms_of_read h
  obtain ⟨s, hread, hclose⟩ := exists_read_of_readTerms hterms
  have hcalls : formula.calls = sequenceCalls 0 (Progress.closeAll s.frames s.body s.notes).1 := by
    rw [hclose, calls]
  have hnotes : ∀ d ∈ s.notes, d.fault.misleads = false := by
    intro d hd
    refine hclean d (mem_diagnostics.mpr (.inr ?_))
    have hmem := List.mem_append_left (s.frames.map Frame.unclosed) (List.mem_reverse.mpr hd)
    rwa [← Progress.notes_closeAll s.frames s.body, hclose] at hmem
  have hrun := Progress.run_of_read hread
  refine ⟨?_, ?_, functions_calls formula k⟩
  · have hspans := hrun.spans hnotes Progress.follows_start
    rw [callSpans, CallSpan.ofTokens, CallSpan.closedIn_eq .nil]
    refine sortBy_of_perm (hspans.trans ?_) hpairwise
    have hperm := (Progress.calls_closeAll s.frames s.body s.notes).filterMap Call.span?
    rw [List.filterMap_append, Progress.filterMap_openCalls, List.append_nil, ← hcalls] at hperm
    exact hperm.symm
  · rw [hcalls]
    exact (hrun.standing hnotes (Progress.standing_start _)).stands

theorem pieces_unfinished : pieces "NOT(\x7bA\x7d AND (abs(\x7bA\x7d)".toList =
    [.lexeme (.function "NOT"), .lexeme .opening, .lexeme (.reference "A"), .blank ' ',
      .lexeme (.function "AND"), .blank ' ', .lexeme .opening, .lexeme (.function "abs"),
      .lexeme .opening, .lexeme (.reference "A"), .lexeme .closing] := by
  have hname : '}' ∉ "A".toList := by decide
  have hspaced : Spaced [.lexeme (.function "NOT"), .lexeme .opening, .lexeme (.reference "A"),
      .blank ' ', .lexeme (.function "AND"), .blank ' ', .lexeme .opening, .lexeme (.function "abs"),
      .lexeme .opening, .lexeme (.reference "A"), .lexeme .closing] :=
    ⟨rfl, by decide, trivial, by decide, hname, by decide, rfl, rfl, by decide, rfl, trivial,
      by decide, rfl, by decide, trivial, by decide, hname, by decide, trivial, by decide, trivial⟩
  exact pieces_layout hspaced

/-- A formula with a call in a group in a call, of which only the first is closed. -/
def unfinished : Formula where
  scan := {
    tokens := [⟨.function "NOT", 0⟩, ⟨.opening, 3⟩, ⟨.reference "A", 4⟩, ⟨.function "AND", 8⟩,
      ⟨.opening, 12⟩, ⟨.function "abs", 13⟩, ⟨.opening, 16⟩, ⟨.reference "A", 17⟩, ⟨.closing, 20⟩]
    diagnostics := []
    finish := 21 }
  terms := [.call 0 "NOT" (some ⟨3, none⟩) [[.reference 4 "a", .operator 8 "AND",
    .group ⟨12, none⟩ [.call 13 "abs" (some ⟨16, some 20⟩) [[.reference 17 "a"]]]]]]
  notes := [⟨.unclosedGroup, 12⟩, ⟨.unclosedCall "NOT", 3⟩]

/-- Behind an operand `AND` is no call, and the call in the group is one of two that are open. -/
theorem callSpans_unfinished :
    read 3 [⟨"a", "A", none⟩] "NOT(\x7bA\x7d AND (abs(\x7bA\x7d)" = .ok unfinished ∧
      (∀ d ∈ unfinished.diagnostics, d.fault.misleads = false) ∧
      callSpans "NOT(\x7bA\x7d AND (abs(\x7bA\x7d)" = [⟨"abs", 13, 16, 20, 1⟩] ∧
      (∀ call ∈ unfinished.calls, call.Stands unfinished.scan.tokens) ∧
      List.Forall₂ (fun node call => node.function = some call.name ∧
          ((unfinished.store 0).ancestors node.id).countP (·.kind = .function) = call.depth)
        ((unfinished.store 0).nodes.filter (·.kind = .function)) unfinished.calls := by
  have hscan : Scan.ofText "NOT(\x7bA\x7d AND (abs(\x7bA\x7d)" = unfinished.scan := by
    rw [Scan.ofText, pieces_unfinished]
    rfl
  have hread : read 3 [⟨"a", "A", none⟩] "NOT(\x7bA\x7d AND (abs(\x7bA\x7d)" = .ok unfinished := by
    rw [read_eq, hscan]
    rfl
  have hclean : ∀ d ∈ unfinished.diagnostics, d.fault.misleads = false := by decide
  obtain ⟨hspans, hstands, hfunctions⟩ := callSpans_eq hread hclean 0
  rw [hscan] at hstands
  exact ⟨hread, hclean, hspans, hstands, hfunctions⟩

end Formula
end Formulary
