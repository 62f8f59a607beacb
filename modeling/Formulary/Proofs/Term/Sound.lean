/-
# What reading keeps

Whatever the tokens are, what is read can be written: operators and calls have known words, numbers
are plain, references were found by a name, no call of `AND`, `OR` or `NOT` stands behind an operand,
and parentheses are nested no more deeply than the limit allows. If nothing is noted, what is read also
comes back as it is, since no operator that dangles was followed by a group (`good_of_readTerms`).

Both are kept by a step, for the sequences of all open parentheses. For the second the reader needs to
know what it does not meet next: a parenthesis behind a word that dangles, and a closing one right
behind that of a call.

Key definitions: `Outline.Scanned`, `Outline.Fine`, `Outline.Good`, `Progress.Good`, `Progress.Ahead`.
Key theorems: `Progress.Step.keeps`, `good_of_readTerms`.
-/
import Formulary.Proofs.Outline.Reread
import Formulary.Proofs.Term.Run

namespace Formulary

namespace Outline

variable {limit : Int} {catalog : Catalog} {strict weaker : Prop} {depth : Nat}
  {os q : List Outline} {o : Outline}

/-- What holds of the parts that are read under a catalog, whatever is inside them. -/
def Scanned (catalog : Catalog) : Outline → Prop
  | reference id => ∃ name found, '}' ∉ name.toList ∧ catalog.findByName? name = some found ∧
      found.id = id
  | operator symbol => isOperator symbol = true
  | value number => number.Plain
  | call name _ => isFunctionName name = true
  | group _ => True

/-- What holds of a sequence that is read, whatever is inside its parts; `strict` tells whether
nothing was noted. -/
structure Fine (catalog : Catalog) (strict : Prop) (q : List Outline) : Prop where
  scanned : ∀ o ∈ q, o.Scanned catalog
  fits : Role.callsFit false (q.map role) = true
  plainly : strict → Plainly false q

/-- What holds of a sequence that is read below so many parentheses, with all that is inside it. -/
structure Good (limit : Int) (catalog : Catalog) (strict : Prop) (depth : Nat)
    (os : List Outline) : Prop where
  fine : ∀ q ∈ sequences os, Fine catalog strict q
  height : strict → (depth : Int) + sequenceHeight os ≤ max limit depth

/-- What a part needs to be put behind a sequence. -/
structure Joins (catalog : Catalog) (strict : Prop) (os : List Outline) (o : Outline) : Prop where
  scanned : o.Scanned catalog
  call : o.role = .wordCall → Role.endsOperand false (os.map role) = false
  plainly : strict → o.isHollow = false ∧
    (o.role = .group → Role.dangles false (os.map role) = false)

theorem Fine.weaken (h : Fine catalog strict q) (hw : weaker → strict) : Fine catalog weaker q :=
  ⟨h.scanned, h.fits, fun hweaker => h.plainly (hw hweaker)⟩

theorem Good.weaken (h : Good limit catalog strict depth os) (hw : weaker → strict) :
    Good limit catalog weaker depth os :=
  ⟨fun q hq => (h.fine q hq).weaken hw, fun hweaker => h.height (hw hweaker)⟩

theorem good_nil : Good limit catalog strict depth [] := by
  refine ⟨fun q hq => ?_, by simp [sequenceHeight]⟩
  obtain rfl := List.mem_singleton.mp hq
  exact ⟨fun _ ho => (by cases ho), rfl, fun _ => ⟨rfl, fun _ ho => (by cases ho)⟩⟩

/-- A part is put behind a sequence. -/
theorem Fine.concat (h : Fine catalog strict os) (hjoins : Joins catalog strict os o) :
    Fine catalog strict (os ++ [o]) := by
  refine ⟨fun u hu => ?_, ?_, fun hstrict => ⟨?_, fun u hu => ?_⟩⟩
  · rcases List.mem_append.mp hu with hu | hu
    · exact h.scanned u hu
    · obtain rfl := List.mem_singleton.mp hu
      exact hjoins.scanned
  · rw [List.map_append, List.map_singleton, Role.callsFit_append, h.fits]
    by_cases hcall : o.role = .wordCall
    · simp [hjoins.call hcall]
    · simp [hcall]
  · rw [List.map_append, List.map_singleton, Role.misreads_append, (h.plainly hstrict).1]
    by_cases hgroup : o.role = .group
    · simp [(hjoins.plainly hstrict).2 hgroup]
    · simp [hgroup]
  · rcases List.mem_append.mp hu with hu | hu
    · exact (h.plainly hstrict).2 u hu
    · obtain rfl := List.mem_singleton.mp hu
      exact (hjoins.plainly hstrict).1

theorem Good.concat (h : Good limit catalog strict depth os) (hjoins : Joins catalog strict os o)
    (hinner : ∀ q ∈ o.inner, Fine catalog strict q)
    (hheight : strict → (depth : Int) + o.height ≤ max limit depth) :
    Good limit catalog strict depth (os ++ [o]) := by
  refine ⟨fun q hq => ?_, fun hstrict => ?_⟩
  · rcases List.mem_cons.mp hq with rfl | hq
    · exact (h.fine os List.mem_cons_self).concat hjoins
    · rw [sequenceInner_append] at hq
      rcases List.mem_append.mp hq with hq | hq
      · exact h.fine q (List.mem_cons_of_mem _ hq)
      · exact hinner q (by simpa [sequenceInner] using hq)
  · have hos := h.height hstrict
    have ho := hheight hstrict
    rw [sequenceHeight_append]
    simp only [sequenceHeight]
    omega

/-- Arguments that are read make up what is inside their call. -/
theorem good_arguments : ∀ {as : List (List Outline)},
    (∀ a ∈ as, Good limit catalog strict depth a) →
    (∀ q ∈ argumentInner as, Fine catalog strict q) ∧
      (strict → (depth : Int) + argumentHeight as ≤ max limit depth)
  | [], _ => ⟨fun _ hq => (by cases hq), by simp [argumentHeight]⟩
  | a :: rest, has => by
    obtain ⟨hinner, hheight⟩ := good_arguments fun b hb => has b (List.mem_cons_of_mem _ hb)
    have ha := has a List.mem_cons_self
    refine ⟨fun q hq => ?_, fun hstrict => ?_⟩
    · rcases List.mem_append.mp hq with hq | hq
      · exact ha.fine q hq
      · exact hinner q hq
    · have hfirst := ha.height hstrict
      have hothers := hheight hstrict
      simp only [argumentHeight]
      omega

end Outline

open Outline

/-- The roles of terms. -/
def Term.roles (terms : List Term) : List Role :=
  (Term.outlines terms).map Outline.role

variable {limit : Int} {catalog : Catalog} {strict weaker : Prop}

/-! ### Open parentheses -/

/-- What holds of what a parenthesis belongs to, behind the terms `outer` and below so many others. -/
def Opened.Good (limit : Int) (catalog : Catalog) (strict : Prop) (depth : Nat)
    (outer : List Term) : Opened → Prop
  | .call _ name arguments => isFunctionName name = true ∧
      (Role.ofCall name = .wordCall → Role.endsOperand false (Term.roles outer.reverse) = false) ∧
      ∀ a ∈ arguments, Outline.Good limit catalog strict (depth + 1) (Term.outlines a)
  | .group => strict → Role.dangles false (Term.roles outer.reverse) = false

/-- What holds of open parentheses, innermost first. -/
def FramesGood (limit : Int) (catalog : Catalog) (strict : Prop) : List Frame → Prop
  | [] => True
  | frame :: rest =>
    Outline.Good limit catalog strict rest.length (Term.outlines frame.outer.reverse) ∧
      frame.opened.Good limit catalog strict rest.length frame.outer ∧
      (rest.length : Int) + 1 ≤ limit ∧ FramesGood limit catalog strict rest

theorem FramesGood.weaken (hw : weaker → strict) : ∀ {frames : List Frame},
    FramesGood limit catalog strict frames → FramesGood limit catalog weaker frames
  | [], _ => trivial
  | ⟨.call _ _ _, _, _⟩ :: _, ⟨houter, ⟨hname, hcall, hargs⟩, hlimit, hrest⟩ =>
    ⟨houter.weaken hw, ⟨hname, hcall, fun a ha => (hargs a ha).weaken hw⟩, hlimit, hrest.weaken hw⟩
  | ⟨.group, _, _⟩ :: _, ⟨houter, hgroup, hlimit, hrest⟩ =>
    ⟨houter.weaken hw, fun hweaker => hgroup (hw hweaker), hlimit, hrest.weaken hw⟩

/-- Whether a parenthesis belongs to a call that has no arguments yet. -/
def Frame.isFresh (frame : Frame) : Bool :=
  match frame.opened with
  | .call _ _ [] => true
  | _ => false

theorem Term.outlines_concat (terms : List Term) (term : Term) :
    Term.outlines (term :: terms).reverse = Term.outlines terms.reverse ++ [term.outline] := by
  rw [List.reverse_cons, Term.outlines_append]
  rfl

theorem Term.roles_concat (terms : List Term) (term : Term) :
    Term.roles (term :: terms).reverse = Term.roles terms.reverse ++ [term.outline.role] := by
  rw [Term.roles, Term.outlines_concat, List.map_append]
  rfl

theorem role_call_ne_group (name : String) (arguments : List (List Outline)) :
    (Outline.call name arguments).role ≠ .group := by
  simp only [Outline.role, Role.ofCall]
  split <;> simp

theorem argumentOutlines_concat_ne {arguments : List (List Term)} {body : List Term}
    (h : arguments = [] → body ≠ []) :
    Term.argumentOutlines (body.reverse :: arguments).reverse ≠ [[]] := by
  rw [Term.argumentOutlines_eq_map, List.reverse_cons, List.map_append, List.map_singleton]
  intro heq
  have hlength := congrArg List.length heq
  simp only [List.length_append, List.length_map, List.length_reverse, List.length_cons,
    List.length_nil] at hlength
  obtain rfl := List.length_eq_zero_iff.mp (show arguments.length = 0 by omega)
  refine h rfl ?_
  simpa [Term.outlines_eq_map] using heq

/-- The term of a parenthesis that is closed joins the terms before it. -/
theorem good_close {frame : Frame} {rest : List Frame} {body : List Term} (closing : Option Nat)
    (hframe : FramesGood limit catalog strict (frame :: rest))
    (hbody : Outline.Good limit catalog strict (rest.length + 1) (Term.outlines body.reverse))
    (hfresh : strict → body = [] → frame.isFresh = false) :
    Outline.Good limit catalog strict rest.length
      (Term.outlines (frame.close closing body :: frame.outer).reverse) := by
  obtain ⟨houter, hopened, hlimit, -⟩ := hframe
  have hheight := hbody.height
  rw [Term.outlines_concat]
  obtain ⟨⟨position, name, arguments⟩ | _, opening, outer⟩ := frame
  · obtain ⟨hname, hcall, hargs⟩ := hopened
    have hall : ∀ a ∈ Term.argumentOutlines (body.reverse :: arguments).reverse,
        Outline.Good limit catalog strict (rest.length + 1) a := by
      intro a ha
      rw [Term.argumentOutlines_eq_map] at ha
      obtain ⟨terms, hterms, rfl⟩ := List.mem_map.mp ha
      rcases List.mem_cons.mp (List.mem_reverse.mp hterms) with rfl | hterms
      · exact hbody
      · exact hargs terms hterms
    obtain ⟨hinner, hargsHeight⟩ := good_arguments hall
    refine houter.concat ⟨hname, hcall, fun hstrict => ⟨isHollow_call ?_, fun hgroup => ?_⟩⟩ hinner
      fun hstrict => ?_
    · refine argumentOutlines_concat_ne fun hnil hempty => ?_
      have hnot := hfresh hstrict hempty
      rw [hnil] at hnot
      cases hnot
    · exact (role_call_ne_group _ _ hgroup).elim
    · have hargs := hargsHeight hstrict
      simp only [Frame.close, Term.outline, Outline.height]
      push_cast at hargs ⊢
      omega
  · refine houter.concat ⟨trivial, fun hcall => ?_, fun hstrict => ⟨rfl, fun _ => hopened hstrict⟩⟩
      hbody.fine fun hstrict => ?_
    · cases hcall
    · have hbody := hheight hstrict
      simp only [Frame.close, Term.outline, Outline.height]
      push_cast at hbody ⊢
      omega

namespace Progress

/-! ### The state of the reader -/

/-- What holds of the state of the reader, whatever the tokens are. -/
structure Good (limit : Int) (catalog : Catalog) (s : Progress) : Prop where
  frames : FramesGood limit catalog (s.notes = []) s.frames
  body : Outline.Good limit catalog (s.notes = []) s.frames.length (Term.outlines s.body.reverse)

/-- What the reader does not meet next. -/
structure Ahead (tokens : List Token) (s : Progress) : Prop where
  group : Token.startsOpening tokens = true →
    Role.dangles false (Term.roles s.body.reverse) = false
  call : s.body = [] → (s.frames.head?.map Frame.isFresh).getD false = true →
    Token.startsClosing tokens = false

variable {s : Progress} {rest tokens : List Token}

/-- The reader looks at the last term alone. -/
theorem followsOperand_eq (s : Progress) :
    s.followsOperand = Role.endsOperand false (Term.roles s.body.reverse) := by
  unfold followsOperand
  cases s.body with
  | nil => rfl
  | cons term body =>
    rw [Term.roles_concat, Role.endsOperand_append, isOperand_role, Term.isOperand_outline]
    rfl

theorem notes_note_ne (fault : Fault) (position : Nat) (s : Progress) :
    (s.note fault position).notes ≠ [] := List.cons_ne_nil _ _

theorem Good.note (h : s.Good limit catalog) (fault : Fault) (position : Nat) :
    (s.note fault position).Good limit catalog :=
  ⟨h.frames.weaken fun hnil => (notes_note_ne _ _ _ hnil).elim,
    h.body.weaken fun hnil => (notes_note_ne _ _ _ hnil).elim⟩

theorem Good.push (h : s.Good limit catalog) {term : Term}
    (hjoins : Joins catalog (s.notes = []) (Term.outlines s.body.reverse) term.outline)
    (hinner : ∀ q ∈ term.outline.inner, Fine catalog (s.notes = []) q)
    (hheight : s.notes = [] →
      (s.frames.length : Int) + term.outline.height ≤ max limit s.frames.length) :
    (s.push term).Good limit catalog := by
  refine ⟨h.frames, ?_⟩
  have hconcat := h.body.concat hjoins hinner hheight
  rw [← Term.outlines_concat] at hconcat
  exact hconcat

/-- A term without parentheses is put behind the innermost sequence. -/
theorem Good.pushLeaf (h : s.Good limit catalog) {term : Term}
    (hscanned : term.outline.Scanned catalog) (hleaf : term.outline.inner = [])
    (hheight : term.outline.height = 0)
    (hrole : term.outline.role ≠ .wordCall ∧ term.outline.role ≠ .group) :
    (s.push term).Good limit catalog := by
  refine h.push ⟨hscanned, fun hcall => (hrole.1 hcall).elim,
    fun _ => ⟨?_, fun hgroup => (hrole.2 hgroup).elim⟩⟩ ?_ fun _ => (by rw [hheight]; omega)
  · unfold Outline.isHollow
    split
    · next heq =>
      rw [heq] at hleaf
      cases hleaf
    · rfl
  · rw [hleaf]
    exact fun q hq => (by cases hq)

/-- A call without arguments is put behind the innermost sequence. -/
theorem Good.pushCall (h : s.Good limit catalog) {name : String} {position : Nat}
    {parens : Option Parens} (hname : isFunctionName name = true)
    (hword : (isOperator name && s.followsOperand) = false)
    (hlimit : s.notes = [] → (s.frames.length : Int) + 1 ≤ limit) :
    (s.push (.call position name parens [])).Good limit catalog := by
  refine h.push ⟨hname, fun hcall => ?_, fun _ => ⟨rfl, fun hgroup => ?_⟩⟩
    (fun q hq => (by cases hq)) fun hnil => (by
      have := hlimit hnil
      simp only [Term.outline, Outline.height, Term.argumentOutlines, argumentHeight]
      omega)
  · have hoperator : isOperator name = true := by
      by_contra hnot
      simp [Term.outline, Outline.role, Role.ofCall, hnot] at hcall
    rw [hoperator, Bool.true_and, followsOperand_eq] at hword
    exact hword
  · exact (role_call_ne_group _ _ hgroup).elim

theorem Good.enter (h : s.Good limit catalog) {opened : Opened} {opening : Nat}
    (hopened : opened.Good limit catalog (s.notes = []) s.frames.length s.body)
    (hlimit : (s.frames.length : Int) + 1 ≤ limit) : (s.enter opened opening).Good limit catalog :=
  ⟨⟨h.body, hopened, hlimit, h.frames⟩, good_nil⟩

/-- The parenthesis of a call opens where the call may stand. -/
theorem opened_call {name : String} {position : Nat} (hname : isFunctionName name = true)
    (hword : (isOperator name && s.followsOperand) = false) :
    (Opened.call position name []).Good limit catalog (s.notes = []) s.frames.length s.body := by
  refine ⟨hname, fun hcall => ?_, fun _ ha => (by cases ha)⟩
  have hoperator : isOperator name = true := by
    by_contra hnot
    simp [Role.ofCall, hnot] at hcall
  rw [hoperator, Bool.true_and, followsOperand_eq] at hword
  exact hword

theorem Good.leave (h : s.Good limit catalog) (position : Nat)
    (hfresh : s.notes = [] → s.body = [] → (s.frames.head?.map Frame.isFresh).getD false = false) :
    (s.leave position).Good limit catalog := by
  obtain ⟨_ | ⟨frame, frames⟩, body, notes⟩ := s
  · exact h.note _ _
  · exact ⟨h.frames.2.2.2, good_close (some position) h.frames h.body hfresh⟩

theorem Good.separate (h : s.Good limit catalog) (position : Nat) :
    (s.separate position).Good limit catalog := by
  obtain ⟨_ | ⟨⟨⟨start, name, arguments⟩ | _, opening, outer⟩, frames⟩, body, notes⟩ := s
  · exact h.note _ _
  · obtain ⟨⟨houter, ⟨hname, hcall, hargs⟩, hframes⟩, hbody⟩ := h
    refine ⟨⟨houter, ⟨hname, hcall, fun a ha => ?_⟩, hframes⟩, good_nil⟩
    rcases List.mem_cons.mp ha with rfl | ha
    · exact hbody
    · exact hargs a ha
  · exact h.note _ _

/-! ### What is met next -/

/-- Behind an operand anything may come. -/
theorem ahead_push {term : Term} (h : term.outline.role ≠ .word) : Ahead rest (s.push term) := by
  refine ⟨fun _ => ?_, fun hnil => (by cases hnil)⟩
  show Role.dangles false (Term.roles (term :: s.body).reverse) = false
  rw [Term.roles_concat, Role.dangles_append]
  simp [h]

theorem ahead_enter {opened : Opened} {opening : Nat}
    (h : Frame.isFresh ⟨opened, opening, s.body⟩ = true → Token.startsClosing rest = false) :
    Ahead rest (s.enter opened opening) :=
  ⟨fun _ => rfl, fun _ hfresh => h hfresh⟩

theorem ahead_leave {position : Nat} (h : (s.leave position).notes = []) :
    Ahead rest (s.leave position) := by
  obtain ⟨_ | ⟨⟨⟨start, name, arguments⟩ | _, opening, outer⟩, frames⟩, body, notes⟩ := s
  · exact (notes_note_ne _ _ _ h).elim
  · refine ahead_push (s := ⟨frames, outer, notes⟩) ?_
    simp only [Frame.close, Term.outline, Outline.role, Role.ofCall]
    split <;> simp
  · refine ahead_push (s := ⟨frames, outer, notes⟩) ?_
    simp [Frame.close, Term.outline, Outline.role]

theorem ahead_separate {position : Nat} (h : (s.separate position).notes = []) :
    Ahead rest (s.separate position) := by
  obtain ⟨_ | ⟨⟨⟨start, name, arguments⟩ | _, opening, outer⟩, frames⟩, body, notes⟩ := s
  · exact (notes_note_ne _ _ _ h).elim
  · exact ⟨fun _ => rfl, fun _ hfresh => (by cases hfresh)⟩
  · exact (notes_note_ne _ _ _ h).elim

/-! ### A step keeps it -/

/-- What the reader keeps from step to step. -/
structure Keeps (limit : Int) (catalog : Catalog) (tokens : List Token) (s : Progress) : Prop where
  known : ∀ t ∈ tokens, t.lexeme.Known
  good : s.Good limit catalog
  ahead : s.notes = [] → Ahead tokens s

theorem role_operator (word : String) : (Outline.operator word).role ≠ .wordCall ∧
    (Outline.operator word).role ≠ .group := by
  simp only [Outline.role, Role.ofOperator]
  split <;> simp

/-- A word that the next parenthesis would not be read with does not dangle in front of it. -/
theorem ahead_word {l : Lexeme} {word : String} {position : Nat} (hword : IsWord l word)
    (hknown : l.Known) (hbehind : ∀ name, l = .function name →
      Token.startsOpening rest = true → s.followsOperand = true) :
    Ahead rest (s.push (.operator position word)) := by
  refine ⟨fun hopening => ?_, fun hnil => (by cases hnil)⟩
  show Role.dangles false (Term.roles (.operator position word :: s.body).reverse) = false
  rw [Term.roles_concat, Role.dangles_append]
  rcases hword with ⟨rfl, -⟩ | rfl
  · rw [← followsOperand_eq, hbehind word rfl hopening]
    simp
  · have hfunction : isFunctionName word = false := hknown.2
    simp [Term.outline, Outline.role, Role.ofOperator, hfunction]

/-- **A step keeps what is read fit to be written.** -/
theorem Step.keeps {tokens' : List Token} {s' : Progress}
    (hstep : Step limit catalog tokens s tokens' s') (h : Keeps limit catalog tokens s) :
    Keeps limit catalog tokens' s' := by
  obtain ⟨hknown, hgood, hahead⟩ := h
  cases hstep with
  | @word l word position _ _ hword hbehind =>
    have hl : l.Known := hknown _ List.mem_cons_self
    have hoperator : isOperator word = true := by
      rcases hword with ⟨-, h⟩ | rfl
      · exact h
      · exact hl.1
    exact ⟨fun t ht => hknown t (List.mem_cons_of_mem _ ht),
      hgood.pushLeaf hoperator rfl rfl (role_operator word), fun _ => ahead_word hword hl hbehind⟩
  | @reference name position _ _ =>
    have hrest : ∀ t ∈ tokens', t.lexeme.Known := fun t ht => hknown t (List.mem_cons_of_mem _ ht)
    unfold refer
    cases hfound : catalog.findByName? name with
    | none => exact ⟨hrest, hgood.note _ _, fun hnil => (notes_note_ne _ _ _ hnil).elim⟩
    | some found =>
      have hbrace : '}' ∉ name.toList := hknown _ List.mem_cons_self
      exact ⟨hrest, hgood.pushLeaf ⟨name, found, hbrace, hfound, rfl⟩ rfl rfl (by
        simp [Term.outline, Outline.role]), fun _ => ahead_push (by simp [Term.outline, Outline.role])⟩
  | @value literal number position _ _ =>
    exact ⟨fun t ht => hknown t (List.mem_cons_of_mem _ ht),
      hgood.pushLeaf (hknown _ List.mem_cons_self) rfl rfl (by simp [Term.outline, Outline.role]),
      fun _ => ahead_push (by simp [Term.outline, Outline.role])⟩
  | @missing name position _ _ hname =>
    have hfunction : isFunctionName name = true := hknown _ List.mem_cons_self
    exact ⟨fun t ht => hknown t (List.mem_cons_of_mem _ ht),
      (hgood.note _ _).pushCall hfunction (by rw [hname]; rfl)
        fun hnil => (notes_note_ne _ _ _ hnil).elim,
      fun hnil => (notes_note_ne _ _ _ hnil).elim⟩
  | @bareCall name position opening closing _ _ hlimit hword =>
    have hname : isFunctionName name = true := hknown _ List.mem_cons_self
    refine ⟨fun t ht => hknown t (by simp [ht]), hgood.pushCall hname hword fun _ => hlimit, fun _ => ?_⟩
    exact ahead_push (by simp only [Term.outline, Outline.role, Role.ofCall]; split <;> simp)
  | @unclosed name position opening _ hlimit hword =>
    have hname : isFunctionName name = true := hknown _ List.mem_cons_self
    exact ⟨fun t ht => (by cases ht), (hgood.note _ _).pushCall hname hword fun _ => hlimit,
      fun hnil => (notes_note_ne _ _ _ hnil).elim⟩
  | @call name position opening _ _ hlimit hword hclosing =>
    have hname : isFunctionName name = true := hknown _ List.mem_cons_self
    exact ⟨fun t ht => hknown t (by simp [ht]), hgood.enter (opened_call hname hword) hlimit,
      fun _ => ahead_enter fun _ => hclosing⟩
  | @opening position _ _ hlimit =>
    exact ⟨fun t ht => hknown t (List.mem_cons_of_mem _ ht),
      hgood.enter (fun hnil => (hahead hnil).group rfl) hlimit,
      fun _ => ahead_enter fun hfresh => (by cases hfresh)⟩
  | @closing position _ _ =>
    refine ⟨fun t ht => hknown t (List.mem_cons_of_mem _ ht), hgood.leave position ?_,
      fun hnil => ahead_leave hnil⟩
    intro hnil hempty
    by_contra hfresh
    have hclosing := (hahead hnil).call hempty (by simpa using hfresh)
    cases hclosing
  | @comma position _ _ =>
    exact ⟨fun t ht => hknown t (List.mem_cons_of_mem _ ht), hgood.separate position,
      fun hnil => ahead_separate hnil⟩

theorem keeps_start {tokens : List Token} (hknown : ∀ t ∈ tokens, t.lexeme.Known) :
    Keeps limit catalog tokens .start :=
  ⟨hknown, ⟨trivial, good_nil⟩, fun _ => ⟨fun _ => rfl, fun _ hfresh => (by cases hfresh)⟩⟩

/-- What is still open at the end of the text is closed, and what is read stays good. -/
theorem good_closeAll : ∀ (frames : List Frame) (body : List Term) (notes : List Diagnostic),
    Good limit catalog ⟨frames, body, notes⟩ →
    Outline.Good limit catalog ((closeAll frames body notes).2 = []) 0
      (Term.outlines (closeAll frames body notes).1)
  | [], body, notes, h => h.body.weaken fun hnil => List.reverse_eq_nil_iff.mp hnil
  | frame :: frames, body, notes, h => by
    have hnever : (⟨frame.fault, frame.opening⟩ :: notes : List Diagnostic) = [] → notes = [] :=
      fun hnil => (List.cons_ne_nil _ _ hnil).elim
    have hclosed := good_close none (h.frames.weaken hnever) (h.body.weaken hnever)
      fun hnil => (List.cons_ne_nil _ _ hnil).elim
    exact good_closeAll frames (frame.close none body :: frame.outer)
      (⟨frame.fault, frame.opening⟩ :: notes) ⟨(h.frames.weaken hnever).2.2.2, hclosed⟩

end Progress

/-! ### Whole texts -/

/-- **What is read is fit to be written**, and comes back as it is if nothing was noted. -/
theorem good_of_readTerms {tokens : List Token} {terms : List Term} {notes : List Diagnostic}
    (hknown : ∀ t ∈ tokens, t.lexeme.Known)
    (h : readTerms limit catalog tokens = .ok (terms, notes)) :
    Outline.Good limit catalog (notes = []) 0 (Term.outlines terms) := by
  obtain ⟨s, hread, hclose⟩ := exists_read_of_readTerms h
  have hkeeps := (Progress.run_of_read hread).induction (Progress.keeps_start hknown)
    fun hstep => hstep.keeps
  have hgood := Progress.good_closeAll s.frames s.body s.notes hkeeps.good
  rwa [hclose] at hgood

end Formulary
