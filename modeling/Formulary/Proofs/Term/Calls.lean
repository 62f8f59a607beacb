/-
# The calls of a formula

The calls of terms in reading order, each with the number of calls around it. The reader has the calls
whose parentheses are closed, and those that the open parentheses belong to; a parenthesis that is closed
moves its call from the second to the first, and at the end of the text the rest moves as it is
(`Progress.calls_leave`, `Progress.calls_closeAll`). In the nodes of terms a call is a function, and the
calls around it are the functions above it (`Term.calls_lineages`).

Key definitions: `Call`, `Term.sequenceCalls`, `Progress.calls`, `Progress.openCalls`.
Key theorems: `Progress.calls_leave`, `Progress.calls_closeAll`, `Term.sequenceCalls_lineages`.
-/
import Formulary.Proofs.Store.Lineage
import Formulary.Proofs.Term.Sites
import Formulary.Proofs.Tree.Terms
import Formulary.Token.Span

namespace Formulary

/-- A call of a formula. -/
structure Call where
  name : String
  position : Nat
  /-- Its parentheses; none if the name stood alone. -/
  parens : Option Parens
  /-- The number of calls around it. -/
  depth : Nat
deriving DecidableEq

/-- The span of a call, if it is closed. -/
def Call.span? : Call → Option CallSpan
  | ⟨name, position, some ⟨opening, some closing⟩, depth⟩ =>
    some ⟨name, position, opening, closing, depth⟩
  | _ => none

namespace Term

mutual

/-- The calls of a term that stands in so many calls. -/
def calls (depth : Nat) : Term → List Call
  | reference _ _ | operator _ _ | value _ _ => []
  | call position name parens arguments =>
    ⟨name, position, parens, depth⟩ :: argumentCalls (depth + 1) arguments
  | group _ body => sequenceCalls depth body

/-- The calls of a sequence. -/
def sequenceCalls (depth : Nat) : List Term → List Call
  | [] => []
  | term :: rest => term.calls depth ++ sequenceCalls depth rest

/-- The calls in the arguments of a call. -/
def argumentCalls (depth : Nat) : List (List Term) → List Call
  | [] => []
  | argument :: rest => sequenceCalls depth argument ++ argumentCalls depth rest

end

theorem sequenceCalls_append (depth : Nat) (terms rest : List Term) :
    sequenceCalls depth (terms ++ rest) = sequenceCalls depth terms ++ sequenceCalls depth rest := by
  induction terms with
  | nil => rfl
  | cons term terms ih => rw [List.cons_append, sequenceCalls, sequenceCalls, ih, List.append_assoc]

theorem argumentCalls_append (depth : Nat) (arguments rest : List (List Term)) :
    argumentCalls depth (arguments ++ rest) =
      argumentCalls depth arguments ++ argumentCalls depth rest := by
  induction arguments with
  | nil => rfl
  | cons argument arguments ih =>
    rw [List.cons_append, argumentCalls, argumentCalls, ih, List.append_assoc]

theorem sequenceCalls_concat (depth : Nat) (terms : List Term) (term : Term) :
    sequenceCalls depth (term :: terms).reverse =
      sequenceCalls depth terms.reverse ++ term.calls depth := by
  rw [List.reverse_cons, sequenceCalls_append]
  exact congrArg _ (List.append_nil _)

mutual

theorem sublist_calls (depth : Nat) : ∀ t : Term,
    ((t.calls depth).map Call.position).Sublist (t.sites.flatMap Site.places)
  | reference _ _ => List.nil_sublist _
  | operator _ _ => List.nil_sublist _
  | value _ _ => List.nil_sublist _
  | call _ _ parens arguments => by
    refine List.Sublist.cons_cons _ ?_
    exact (sublist_argumentCalls (depth + 1) arguments).trans (List.sublist_append_right _ _)
  | group _ body => (sublist_sequenceCalls depth body).trans (List.sublist_append_right _ _)

/-- Calls are in the order of the sites. -/
theorem sublist_sequenceCalls (depth : Nat) : ∀ terms : List Term,
    ((sequenceCalls depth terms).map Call.position).Sublist
      ((sequenceSites terms).flatMap Site.places)
  | [] => List.Sublist.refl _
  | term :: rest => by
    rw [sequenceCalls, sequenceSites, List.map_append, List.flatMap_append]
    exact (sublist_calls depth term).append (sublist_sequenceCalls depth rest)

theorem sublist_argumentCalls (depth : Nat) : ∀ arguments : List (List Term),
    ((argumentCalls depth arguments).map Call.position).Sublist
      ((argumentSites arguments).flatMap Site.places)
  | [] => List.Sublist.refl _
  | argument :: rest => by
    rw [argumentCalls, argumentSites, List.map_append, List.flatMap_cons, List.flatMap_append]
    exact (sublist_sequenceCalls depth argument).append (sublist_argumentCalls depth rest)

end

/-! ### Calls and functions -/

/-- Whether a node is a function. -/
def isFunction (node : Node) : Bool :=
  node.kind = .function

/-- Whether a node is the function of a call, given the nodes above it. -/
def IsCall (found : Node × List Node) (call : Call) : Prop :=
  found.1.function = some call.name ∧ found.2.countP isFunction = call.depth

open Formulary.Tree

mutual

theorem calls_lineages (above : List Node) (parent : Option String) (k : Nat) : ∀ t : Term,
    List.Forall₂ IsCall ((Tree.lineages above (tree parent k t)).filter fun found => isFunction found.1)
      (t.calls (above.countP isFunction))
  | reference _ _ => .nil
  | operator _ _ => .nil
  | value _ _ => .nil
  | call _ name _ arguments => by
    have harguments := argumentCalls_lineages
      (.ofFunction (nodeId (k + 1)) parent (some name) :: above) (nodeId (k + 1)) 0 (k + 1) arguments
    rw [List.countP_cons_of_pos rfl] at harguments
    exact .cons ⟨rfl, rfl⟩ harguments
  | group _ body => sequenceCalls_lineages (.ofGroup _ _ _ :: above) _ _ body

/-- **The functions among the nodes of terms are the calls of the terms**, and the functions above a
function are the calls around its call. -/
theorem sequenceCalls_lineages (above : List Node) (parent : Option String) (k : Nat) :
    ∀ terms : List Term, List.Forall₂ IsCall
      ((lineagesAll above (sequenceTrees parent k terms)).filter fun found => isFunction found.1)
      (sequenceCalls (above.countP isFunction) terms)
  | [] => .nil
  | term :: rest => by
    rw [sequenceTrees, lineagesAll, List.filter_append, sequenceCalls]
    exact List.rel_append (calls_lineages above parent k term) (sequenceCalls_lineages above _ _ rest)

theorem argumentCalls_lineages (above : List Node) (owner : String) (slot k : Nat) :
    ∀ arguments : List (List Term), List.Forall₂ IsCall
      ((lineagesAll above (argumentTrees owner slot k arguments)).filter fun found =>
        isFunction found.1)
      (argumentCalls (above.countP isFunction) arguments)
  | [] => .nil
  | argument :: rest => by
    rw [argumentTrees, lineagesAll, List.filter_append, argumentCalls]
    exact List.rel_append (sequenceCalls_lineages (.ofGroup _ _ _ :: above) _ _ argument)
      (argumentCalls_lineages above _ _ _ rest)

end

end Term

open Term

/-! ### The calls of the reader -/

/-- The bracket that an open parenthesis is among the spans. -/
def Frame.bracket (frame : Frame) : CallSpan.Bracket :=
  match frame.opened with
  | .call position name _ => .call name position frame.opening
  | .group => .group

/-- The call that an open parenthesis belongs to, with the closing one. -/
def Frame.call? (depth : Nat) (closing : Option Nat) (frame : Frame) : Option Call :=
  match frame.opened with
  | .call position name _ => some ⟨name, position, some ⟨frame.opening, closing⟩, depth⟩
  | .group => none

/-- The calls in the complete arguments of what a parenthesis belongs to. -/
def Opened.calls (depth : Nat) : Opened → List Call
  | .call _ _ arguments => argumentCalls (depth + 1) arguments.reverse
  | .group => []

/-- The number of calls that are open. -/
def callDepth (frames : List Frame) : Nat :=
  (frames.map Frame.bracket).countP (·.isCall)

theorem callDepth_call (position : Nat) (name : String) (arguments : List (List Term))
    (opening : Nat) (outer : List Term) (frames : List Frame) :
    callDepth (⟨.call position name arguments, opening, outer⟩ :: frames) = callDepth frames + 1 :=
  List.countP_cons_of_pos rfl

theorem callDepth_group (opening : Nat) (outer : List Term) (frames : List Frame) :
    callDepth (⟨.group, opening, outer⟩ :: frames) = callDepth frames :=
  List.countP_cons_of_neg Bool.false_ne_true

namespace Progress

/-- The calls between open parentheses. -/
def framesCalls : List Frame → List Call
  | [] => []
  | frame :: rest =>
    framesCalls rest ++ sequenceCalls (callDepth rest) frame.outer.reverse ++
      frame.opened.calls (callDepth rest)

/-- The calls that are read and no longer open. -/
def calls (s : Progress) : List Call :=
  framesCalls s.frames ++ sequenceCalls (callDepth s.frames) s.body.reverse

/-- The calls that open parentheses belong to, innermost first. -/
def openCalls : List Frame → List Call
  | [] => []
  | frame :: rest => (frame.call? (callDepth rest) none).toList ++ openCalls rest

theorem calls_push (term : Term) (s : Progress) :
    (s.push term).calls = s.calls ++ term.calls (callDepth s.frames) := by
  simp only [calls, push, sequenceCalls_concat, List.append_assoc]

theorem calls_enter (opened : Opened) (opening : Nat) (s : Progress) :
    (s.enter opened opening).calls = s.calls ++ opened.calls (callDepth s.frames) := by
  simp [calls, enter, framesCalls, sequenceCalls]

theorem calls_separate (position : Nat) (s : Progress) : (s.separate position).calls = s.calls := by
  obtain ⟨_ | ⟨⟨⟨start, name, arguments⟩ | _, opening, outer⟩, frames⟩, body, notes⟩ := s
  · rfl
  · simp [calls, separate, framesCalls, Opened.calls, argumentCalls_append, argumentCalls,
      sequenceCalls, callDepth_call]
  · rfl

theorem calls_close (frame : Frame) (frames : List Frame) (closing : Option Nat) (body : List Term) :
    (frame.close closing body).calls (callDepth frames) =
      (frame.call? (callDepth frames) closing).toList ++ frame.opened.calls (callDepth frames) ++
        sequenceCalls (callDepth (frame :: frames)) body.reverse := by
  obtain ⟨⟨position, name, arguments⟩ | _, opening, outer⟩ := frame
  · simp [Frame.close, Term.calls, Frame.call?, Opened.calls, argumentCalls_append, argumentCalls,
      callDepth_call]
  · simp [Frame.close, Term.calls, Frame.call?, Opened.calls, callDepth_group]

/-- **A closing parenthesis adds the call that it closes.** -/
theorem calls_leave (frame : Frame) (frames : List Frame) (body : List Term)
    (notes : List Diagnostic) (position : Nat) :
    (leave position ⟨frame :: frames, body, notes⟩).calls.Perm
      ((frame.call? (callDepth frames) (some position)).toList ++
        calls ⟨frame :: frames, body, notes⟩) := by
  refine List.perm_iff_count.mpr fun call => ?_
  simp only [calls, leave, framesCalls, sequenceCalls_concat, calls_close, List.count_append]
  omega

/-- **At the end of the text the calls are those that are closed and those that are open.** -/
theorem calls_closeAll (frames : List Frame) (body : List Term) (notes : List Diagnostic) :
    (sequenceCalls 0 (closeAll frames body notes).1).Perm
      (framesCalls frames ++ sequenceCalls (callDepth frames) body.reverse ++ openCalls frames) := by
  induction frames generalizing body notes with
  | nil => exact .of_eq (List.append_nil _).symm
  | cons frame frames ih =>
    refine (ih _ _).trans (List.perm_iff_count.mpr fun call => ?_)
    simp only [framesCalls, openCalls, sequenceCalls_concat, calls_close, List.count_append]
    omega

end Progress
end Formulary
