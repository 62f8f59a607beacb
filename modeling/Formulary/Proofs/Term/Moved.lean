/-
# Positions do not matter to the reader

The reader copies positions and never compares them. Moving the tokens of a text moves what is read and
what is noted, and the place where reading stops (`Progress.read_moved`); nodes have no positions
(`Term.sequenceNodes_moved`).

Key definitions: `Term.moved`, `Progress.moved`.
Key theorems: `Progress.read_moved`, `Term.sequenceNodes_moved`.
-/
import Formulary.Proofs.Term.Run
import Formulary.Proofs.Token.Append
import Formulary.Term.Nodes

namespace Formulary

variable {f : Nat → Nat}

/-! ### Terms -/

/-- Parentheses at the places that their positions are moved to. -/
def Parens.moved (f : Nat → Nat) (parens : Parens) : Parens :=
  ⟨f parens.opening, parens.closing.map f⟩

namespace Term

mutual

/-- A term at the place that its position is moved to. -/
def moved (f : Nat → Nat) : Term → Term
  | reference position id => .reference (f position) id
  | operator position symbol => .operator (f position) symbol
  | value position number => .value (f position) number
  | call position name parens arguments =>
    .call (f position) name (parens.map (Parens.moved f)) (argumentsMoved f arguments)
  | group parens body => .group (parens.moved f) (sequenceMoved f body)

/-- The terms of a sequence at the places that their positions are moved to. -/
def sequenceMoved (f : Nat → Nat) : List Term → List Term
  | [] => []
  | term :: rest => term.moved f :: sequenceMoved f rest

/-- The arguments of a call at the places that their positions are moved to. -/
def argumentsMoved (f : Nat → Nat) : List (List Term) → List (List Term)
  | [] => []
  | argument :: rest => sequenceMoved f argument :: argumentsMoved f rest

end

theorem sequenceMoved_eq_map (ts : List Term) : sequenceMoved f ts = ts.map (moved f) := by
  induction ts with
  | nil => rfl
  | cons t ts ih => rw [sequenceMoved, ih, List.map_cons]

theorem argumentsMoved_eq_map (as : List (List Term)) :
    argumentsMoved f as = as.map (List.map (moved f)) := by
  induction as with
  | nil => rfl
  | cons a as ih => rw [argumentsMoved, sequenceMoved_eq_map, ih, List.map_cons]

theorem isOperand_moved (t : Term) : (t.moved f).isOperand = t.isOperand := by
  cases t <;> rfl

mutual

theorem count_moved : ∀ t : Term, (t.moved f).count = t.count
  | reference _ _ => rfl
  | operator _ _ => rfl
  | value _ _ => rfl
  | call _ _ _ arguments => by rw [moved, count, count, countArguments_moved arguments]
  | group _ body => by rw [moved, count, count, countSequence_moved body]

theorem countSequence_moved : ∀ ts : List Term, countSequence (sequenceMoved f ts) = countSequence ts
  | [] => rfl
  | t :: ts => by
    rw [sequenceMoved, countSequence, countSequence, count_moved t, countSequence_moved ts]

theorem countArguments_moved : ∀ as : List (List Term),
    countArguments (argumentsMoved f as) = countArguments as
  | [] => rfl
  | a :: as => by
    rw [argumentsMoved, countArguments, countArguments, countSequence_moved a,
      countArguments_moved as]

end

mutual

theorem nodes_moved (parent : Option String) : ∀ (k : Nat) (t : Term),
    (t.moved f).nodes parent k = t.nodes parent k
  | _, reference _ _ => rfl
  | _, operator _ _ => rfl
  | _, value _ _ => rfl
  | _, call _ _ _ arguments => by rw [moved, nodes, nodes, argumentNodes_moved _ _ _ arguments]
  | _, group _ body => by rw [moved, nodes, nodes, sequenceNodes_moved _ _ body]

/-- **Nodes have no positions.** -/
theorem sequenceNodes_moved (parent : Option String) : ∀ (k : Nat) (ts : List Term),
    sequenceNodes parent k (sequenceMoved f ts) = sequenceNodes parent k ts
  | _, [] => rfl
  | _, t :: ts => by
    rw [sequenceMoved, sequenceNodes, sequenceNodes, nodes_moved _ _ t, sequenceNodes_moved _ _ ts]

theorem argumentNodes_moved (owner : String) : ∀ (slot k : Nat) (as : List (List Term)),
    argumentNodes owner slot k (argumentsMoved f as) = argumentNodes owner slot k as
  | _, _, [] => rfl
  | _, _, a :: as => by
    rw [argumentsMoved, argumentNodes, argumentNodes, sequenceNodes_moved _ _ a,
      argumentNodes_moved _ _ _ as]

end

end Term

/-! ### States -/

/-- What a parenthesis belongs to, at the places that its positions are moved to. -/
def Opened.moved (f : Nat → Nat) : Opened → Opened
  | call position name arguments => .call (f position) name (arguments.map (List.map (Term.moved f)))
  | group => .group

/-- An open parenthesis at the place that its position is moved to. -/
def Frame.moved (f : Nat → Nat) (frame : Frame) : Frame :=
  ⟨frame.opened.moved f, f frame.opening, frame.outer.map (Term.moved f)⟩

/-- An overflow at the place that its position is moved to. -/
def Overflow.moved (f : Nat → Nat) (e : Overflow) : Overflow :=
  { e with position := f e.position }

theorem Frame.close_moved (frame : Frame) (closing : Option Nat) (body : List Term) :
    (frame.moved f).close (closing.map f) (body.map (Term.moved f)) =
      (frame.close closing body).moved f := by
  obtain ⟨⟨position, name, arguments⟩ | _, opening, outer⟩ := frame
  · simp [close, Frame.moved, Opened.moved, Term.moved, Parens.moved, Term.argumentsMoved_eq_map]
  · simp [close, Frame.moved, Opened.moved, Term.moved, Parens.moved, Term.sequenceMoved_eq_map]

theorem Frame.count_moved (frame : Frame) : (frame.moved f).count = frame.count := by
  obtain ⟨⟨position, name, arguments⟩ | _, opening, outer⟩ := frame
  · simp only [count, Frame.moved, Opened.moved, ← Term.sequenceMoved_eq_map,
      ← Term.argumentsMoved_eq_map, Term.countSequence_moved, Term.countArguments_moved]
  · simp only [count, Frame.moved, Opened.moved, ← Term.sequenceMoved_eq_map,
      Term.countSequence_moved]

theorem countFrames_moved (frames : List Frame) :
    countFrames (frames.map (Frame.moved f)) = countFrames frames := by
  induction frames with
  | nil => rfl
  | cons frame frames ih => rw [List.map_cons, countFrames, countFrames, frame.count_moved, ih]

namespace Progress

/-- A state whose positions are moved. -/
def moved (f : Nat → Nat) (s : Progress) : Progress :=
  ⟨s.frames.map (Frame.moved f), s.body.map (Term.moved f), s.notes.map (Diagnostic.moved f)⟩

variable {limit : Int} {catalog : Catalog} {s : Progress}

theorem followsOperand_moved (s : Progress) : (s.moved f).followsOperand = s.followsOperand := by
  obtain ⟨frames, _ | ⟨t, body⟩, notes⟩ := s
  · rfl
  · exact t.isOperand_moved

theorem count_moved (s : Progress) : (s.moved f).count = s.count := by
  rw [count, count, moved, ← Term.sequenceMoved_eq_map, Term.countSequence_moved, countFrames_moved]

theorem push_moved (t : Term) : (s.push t).moved f = (s.moved f).push (t.moved f) := rfl

theorem note_moved (fault : Fault) (position : Nat) :
    (s.note fault position).moved f = (s.moved f).note fault (f position) := rfl

theorem enter_moved (opened : Opened) (opening : Nat) :
    (s.enter opened opening).moved f = (s.moved f).enter (opened.moved f) (f opening) := rfl

theorem separate_moved (position : Nat) :
    (s.separate position).moved f = (s.moved f).separate (f position) := by
  obtain ⟨_ | ⟨⟨⟨start, name, arguments⟩ | _, opening, outer⟩, frames⟩, body, notes⟩ := s
  · rfl
  · simp [separate, moved, Frame.moved, Opened.moved]
  · rfl

theorem leave_moved (position : Nat) :
    (s.leave position).moved f = (s.moved f).leave (f position) := by
  obtain ⟨_ | ⟨frame, frames⟩, body, notes⟩ := s
  · rfl
  · have hclose := frame.close_moved (f := f) (some position) body
    simp only [leave, moved, List.map_cons, ← hclose]
    rfl

theorem refer_moved (name : String) (position : Nat) :
    (s.refer catalog name position).moved f = (s.moved f).refer catalog name (f position) := by
  unfold refer
  split
  · exact push_moved _
  · exact note_moved _ _

theorem readBare_moved (name : String) (position : Nat) :
    (s.readBare name position).moved f = (s.moved f).readBare name (f position) := by
  unfold readBare
  split
  · exact push_moved _
  · rw [push_moved, note_moved]
    rfl

/-- What reading gives, with its positions moved. -/
def resultMoved (f : Nat → Nat) : Except Overflow Progress → Except Overflow Progress
  | .ok s => .ok (s.moved f)
  | .error e => .error (e.moved f)

/-- The check of the nesting is the same for moved positions. -/
theorem descend_bind_moved (s : Progress) (position : Nat) (next : Except Overflow Progress) :
    ((s.moved f).descend limit (f position) >>= fun _ => resultMoved f next) =
      resultMoved f (s.descend limit position >>= fun _ => next) := by
  have hlength : (s.moved f).frames.length = s.frames.length := List.length_map _
  unfold descend
  rw [hlength, count_moved]
  split <;> rfl

theorem startsOpening_moved (tokens : List Token) :
    Token.startsOpening (tokens.map (Token.moved f)) = Token.startsOpening tokens := by
  rcases tokens with _ | ⟨⟨l, position⟩, rest⟩
  · rfl
  · cases l <;> rfl

/-- **Reading moved tokens** gives what reading the tokens gives, moved. -/
theorem read_moved (tokens : List Token) (s : Progress) :
    read limit catalog (tokens.map (Token.moved f)) (s.moved f) =
      resultMoved f (read limit catalog tokens s) := by
  fun_induction read limit catalog tokens s with
  | case1 s => rfl
  | case2 name position opening rest s hword s₁ ih =>
    rw [← descend_bind_moved, ← ih]
    simp only [List.map_cons, Token.moved]
    rw [read.eq_def]
    simp only [followsOperand_moved, if_pos hword]
    rfl
  | case3 name position opening rest s hword ih =>
    rw [← descend_bind_moved]
    simp only [List.map_cons, Token.moved]
    rw [read.eq_def]
    simp only [followsOperand_moved, if_neg hword]
    rcases rest with _ | ⟨⟨l, closing⟩, rest⟩
    · rfl
    · cases l <;> exact congrArg _ (funext fun _ => ih)
  | case4 name position rest s hrest ih =>
    rw [readBare_moved] at ih
    refine (read_function ?_).trans ih
    rw [startsOpening_moved]
    exact startsOpening_eq_false hrest
  | case5 symbol position rest s ih =>
    rw [push_moved] at ih
    exact (read_symbol symbol).trans ih
  | case6 name position rest s ih =>
    rw [refer_moved] at ih
    rw [← ih, List.map_cons, Token.moved, read]
  | case7 literal number position rest s ih =>
    rw [push_moved] at ih
    exact (read_value literal number).trans ih
  | case8 position rest s ih =>
    rw [← descend_bind_moved, ← ih, enter_moved, List.map_cons, Token.moved, read]
    rfl
  | case9 position rest s ih =>
    rw [leave_moved] at ih
    exact (read_closing _).trans ih
  | case10 position rest s ih =>
    rw [separate_moved] at ih
    exact (read_comma _).trans ih

end Progress
end Formulary
