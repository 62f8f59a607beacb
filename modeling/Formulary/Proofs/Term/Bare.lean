/-
# Names without parentheses

The limit is for the parentheses of the text that is read. A function name that stands without its own is
a call all the same, which makes the formula higher than the text if as many parentheses are around it as
the limit allows, but never by more than one (`height_le_of_fits`, `height_le_iff_of_fits`).

Key definitions: `Term.Fits`, `Term.bareDepths`.
Key theorems: `Progress.Step.fits`, `fits_of_readTerms`.
-/
import Formulary.Proofs.Term.Run

namespace Formulary

namespace Term

mutual

/-- Whether the parentheses of a term are nested no more deeply than there is room for. A name without
parentheses needs no room, and has no arguments. -/
def Fits (room : Int) : Term → Prop
  | reference _ _ | operator _ _ | value _ _ => True
  | call _ _ none arguments => arguments = []
  | call _ _ (some _) arguments => 1 ≤ room ∧ ArgumentsFit (room - 1) arguments
  | group _ body => 1 ≤ room ∧ SequenceFits (room - 1) body

/-- Whether the parentheses of a sequence are nested no more deeply than there is room for. -/
def SequenceFits (room : Int) : List Term → Prop
  | [] => True
  | term :: rest => term.Fits room ∧ SequenceFits room rest

/-- Whether the parentheses of arguments are nested no more deeply than there is room for. -/
def ArgumentsFit (room : Int) : List (List Term) → Prop
  | [] => True
  | argument :: rest => SequenceFits room argument ∧ ArgumentsFit room rest

end

mutual

/-- How many parentheses there are around each function name without its own, if there are `depth` around
the term. -/
def bareDepths (depth : Nat) : Term → List Nat
  | reference _ _ | operator _ _ | value _ _ => []
  | call _ _ none _ => [depth]
  | call _ _ (some _) arguments => argumentBareDepths (depth + 1) arguments
  | group _ body => sequenceBareDepths (depth + 1) body

/-- How many parentheses there are around each function name of a sequence without its own. -/
def sequenceBareDepths (depth : Nat) : List Term → List Nat
  | [] => []
  | term :: rest => term.bareDepths depth ++ sequenceBareDepths depth rest

/-- How many parentheses there are around each function name of arguments without its own. -/
def argumentBareDepths (depth : Nat) : List (List Term) → List Nat
  | [] => []
  | argument :: rest => sequenceBareDepths depth argument ++ argumentBareDepths depth rest

end

variable {room : Int}

theorem sequenceFits_iff : ∀ {terms : List Term},
    SequenceFits room terms ↔ ∀ term ∈ terms, term.Fits room
  | [] => by simp [SequenceFits]
  | term :: rest => by
    have ih : SequenceFits room rest ↔ ∀ t ∈ rest, t.Fits room := sequenceFits_iff
    simp [SequenceFits, ih]

theorem argumentsFit_iff : ∀ {arguments : List (List Term)},
    ArgumentsFit room arguments ↔ ∀ argument ∈ arguments, SequenceFits room argument
  | [] => by simp [ArgumentsFit]
  | argument :: rest => by
    have ih : ArgumentsFit room rest ↔ ∀ a ∈ rest, SequenceFits room a := argumentsFit_iff
    simp [ArgumentsFit, ih]

theorem sequenceFits_reverse {terms : List Term} (h : SequenceFits room terms) :
    SequenceFits room terms.reverse :=
  sequenceFits_iff.mpr fun term hterm => sequenceFits_iff.mp h term (List.mem_reverse.mp hterm)

/-! ### The height of what fits -/

variable {limit : Int}

mutual

theorem height_le_of_fits : ∀ {depth : Nat} {term : Term}, term.Fits (limit - depth) →
    (depth : Int) + term.outline.height ≤ max limit depth + 1
  | depth, reference _ _, _ | depth, operator _ _, _ | depth, value _ _, _ => by
    simp only [outline, Outline.height]
    omega
  | depth, call _ _ none arguments, h => by
    obtain rfl : arguments = [] := h
    simp only [outline, argumentOutlines, Outline.height, Outline.argumentHeight]
    omega
  | depth, call _ _ (some _) arguments, ⟨hroom, h⟩ => by
    have ih := @argumentHeight_le_of_fits (depth + 1) arguments (by push_cast; rwa [← Int.sub_sub])
    simp only [outline, Outline.height]
    push_cast at ih ⊢
    omega
  | depth, group _ body, ⟨hroom, h⟩ => by
    have ih := @sequenceHeight_le_of_fits (depth + 1) body (by push_cast; rwa [← Int.sub_sub])
    simp only [outline, Outline.height]
    push_cast at ih ⊢
    omega

/-- **Names without parentheses make a sequence higher by one at most.** -/
theorem sequenceHeight_le_of_fits : ∀ {depth : Nat} {terms : List Term},
    SequenceFits (limit - depth) terms →
    (depth : Int) + Outline.sequenceHeight (outlines terms) ≤ max limit depth + 1
  | depth, [], _ => by
    simp only [outlines, Outline.sequenceHeight]
    omega
  | depth, term :: rest, ⟨hterm, hrest⟩ => by
    have hterm := height_le_of_fits hterm
    have ih := sequenceHeight_le_of_fits hrest
    simp only [outlines, Outline.sequenceHeight]
    omega

theorem argumentHeight_le_of_fits : ∀ {depth : Nat} {arguments : List (List Term)},
    ArgumentsFit (limit - depth) arguments →
    (depth : Int) + Outline.argumentHeight (argumentOutlines arguments) ≤ max limit depth + 1
  | depth, [], _ => by
    simp only [argumentOutlines, Outline.argumentHeight]
    omega
  | depth, argument :: rest, ⟨hargument, hrest⟩ => by
    have hargument := sequenceHeight_le_of_fits hargument
    have ih := argumentHeight_le_of_fits hrest
    simp only [argumentOutlines, Outline.argumentHeight]
    omega

end

mutual

theorem height_le_iff_of_fits : ∀ {depth : Nat} {term : Term}, term.Fits (limit - depth) →
    ((depth : Int) + term.outline.height ≤ max limit depth ↔
      ∀ d ∈ term.bareDepths depth, (d : Int) < limit)
  | depth, reference _ _, _ | depth, operator _ _, _ | depth, value _ _, _ => by
    simp only [outline, Outline.height, bareDepths, List.not_mem_nil, false_imp_iff, implies_true,
      iff_true]
    omega
  | depth, call _ _ none arguments, h => by
    obtain rfl : arguments = [] := h
    simp only [outline, argumentOutlines, Outline.height, Outline.argumentHeight, bareDepths,
      List.forall_mem_singleton]
    omega
  | depth, call _ _ (some _) arguments, ⟨hroom, h⟩ => by
    have ih := @argumentHeight_le_iff_of_fits (depth + 1) arguments
      (by push_cast; rwa [← Int.sub_sub])
    rw [bareDepths, ← ih]
    simp only [outline, Outline.height]
    push_cast
    omega
  | depth, group _ body, ⟨hroom, h⟩ => by
    have ih := @sequenceHeight_le_iff_of_fits (depth + 1) body (by push_cast; rwa [← Int.sub_sub])
    rw [bareDepths, ← ih]
    simp only [outline, Outline.height]
    push_cast
    omega

/-- **A sequence is no higher than its text if no name without parentheses stands at the limit.** -/
theorem sequenceHeight_le_iff_of_fits : ∀ {depth : Nat} {terms : List Term},
    SequenceFits (limit - depth) terms →
    ((depth : Int) + Outline.sequenceHeight (outlines terms) ≤ max limit depth ↔
      ∀ d ∈ sequenceBareDepths depth terms, (d : Int) < limit)
  | depth, [], _ => by
    simp only [outlines, Outline.sequenceHeight, sequenceBareDepths, List.not_mem_nil, false_imp_iff,
      implies_true, iff_true]
    omega
  | depth, term :: rest, ⟨hterm, hrest⟩ => by
    rw [sequenceBareDepths, List.forall_mem_append, ← height_le_iff_of_fits hterm,
      ← sequenceHeight_le_iff_of_fits hrest, outlines, Outline.sequenceHeight]
    omega

theorem argumentHeight_le_iff_of_fits : ∀ {depth : Nat} {arguments : List (List Term)},
    ArgumentsFit (limit - depth) arguments →
    ((depth : Int) + Outline.argumentHeight (argumentOutlines arguments) ≤ max limit depth ↔
      ∀ d ∈ argumentBareDepths depth arguments, (d : Int) < limit)
  | depth, [], _ => by
    simp only [argumentOutlines, Outline.argumentHeight, argumentBareDepths, List.not_mem_nil,
      false_imp_iff, implies_true, iff_true]
    omega
  | depth, argument :: rest, ⟨hargument, hrest⟩ => by
    rw [argumentBareDepths, List.forall_mem_append, ← sequenceHeight_le_iff_of_fits hargument,
      ← argumentHeight_le_iff_of_fits hrest, argumentOutlines, Outline.argumentHeight]
    omega

end

end Term

/-! ### What is read fits -/

open Term

/-- Whether the arguments of an open parenthesis fit. -/
def Opened.Fits (room : Int) : Opened → Prop
  | .call _ _ arguments => ArgumentsFit room arguments
  | .group => True

/-- Whether open parentheses, innermost first, fit under a limit, and what is read around each. -/
def FramesFit (limit : Int) : List Frame → Prop
  | [] => True
  | frame :: rest =>
    SequenceFits (limit - rest.length) frame.outer ∧ frame.opened.Fits (limit - rest.length - 1) ∧
      (rest.length : Int) + 1 ≤ limit ∧ FramesFit limit rest

namespace Progress

variable {limit : Int} {catalog : Catalog} {s : Progress}

/-- Whether all that is read so far fits under a limit. -/
structure Fits (limit : Int) (s : Progress) : Prop where
  frames : FramesFit limit s.frames
  body : SequenceFits (limit - s.frames.length) s.body

theorem Fits.push (h : s.Fits limit) {term : Term} (hterm : term.Fits (limit - s.frames.length)) :
    (s.push term).Fits limit :=
  ⟨h.frames, hterm, h.body⟩

theorem Fits.note (h : s.Fits limit) (fault : Fault) (position : Nat) :
    (s.note fault position).Fits limit :=
  ⟨h.frames, h.body⟩

theorem Fits.enter (h : s.Fits limit) {opened : Opened} (opening : Nat)
    (hopened : opened.Fits (limit - s.frames.length - 1))
    (hlimit : (s.frames.length : Int) + 1 ≤ limit) : (s.enter opened opening).Fits limit :=
  ⟨⟨h.body, hopened, hlimit, h.frames⟩, trivial⟩

/-- The term of a parenthesis that is closed fits where the parenthesis opened. -/
theorem fits_close {frame : Frame} {rest : List Frame} {body : List Term} (closing : Option Nat)
    (hframe : FramesFit limit (frame :: rest))
    (hbody : SequenceFits (limit - (rest.length + 1 : Nat)) body) :
    SequenceFits (limit - rest.length) (frame.close closing body :: frame.outer) := by
  obtain ⟨houter, hopened, hlimit, -⟩ := hframe
  have hroom : 1 ≤ limit - (rest.length : Int) := by omega
  rw [Nat.cast_add_one, ← Int.sub_sub] at hbody
  have hbody := sequenceFits_reverse hbody
  refine ⟨?_, houter⟩
  obtain ⟨⟨position, name, arguments⟩ | _, opening, outer⟩ := frame
  · refine ⟨hroom, argumentsFit_iff.mpr fun argument hargument => ?_⟩
    rcases List.mem_cons.mp (List.mem_reverse.mp hargument) with rfl | hargument
    · exact hbody
    · exact argumentsFit_iff.mp hopened argument hargument
  · exact ⟨hroom, hbody⟩

theorem Fits.leave (h : s.Fits limit) (position : Nat) : (s.leave position).Fits limit := by
  obtain ⟨_ | ⟨frame, frames⟩, body, notes⟩ := s
  · exact h.note _ _
  · exact ⟨h.frames.2.2.2, fits_close (some position) h.frames h.body⟩

theorem Fits.separate (h : s.Fits limit) (position : Nat) : (s.separate position).Fits limit := by
  obtain ⟨_ | ⟨⟨⟨start, name, arguments⟩ | _, opening, outer⟩, frames⟩, body, notes⟩ := s
  · exact h.note _ _
  · obtain ⟨⟨houter, harguments, hframes⟩, hbody⟩ := h
    have hbody : SequenceFits (limit - (frames.length + 1 : Nat)) body := hbody
    rw [Nat.cast_add_one, ← Int.sub_sub] at hbody
    exact ⟨⟨houter, ⟨sequenceFits_reverse hbody, harguments⟩, hframes⟩, trivial⟩
  · exact h.note _ _

/-- **A step keeps what is read fitting.** -/
theorem Step.fits {tokens tokens' : List Token} {s' : Progress}
    (hstep : Step limit catalog tokens s tokens' s') (h : s.Fits limit) : s'.Fits limit := by
  cases hstep with
  | word => exact h.push trivial
  | reference =>
    unfold refer
    split
    · exact h.push trivial
    · exact h.note _ _
  | value => exact h.push trivial
  | missing => exact (h.note _ _).push rfl
  | bareCall hlimit => exact h.push ⟨by omega, trivial⟩
  | unclosed hlimit =>
    have hroom : 1 ≤ limit - (s.frames.length : Int) := by omega
    exact (h.note _ _).push ⟨hroom, trivial⟩
  | call hlimit => exact h.enter _ trivial hlimit
  | opening hlimit => exact h.enter _ trivial hlimit
  | closing => exact h.leave _
  | comma => exact h.separate _

/-- What is still open at the end of the text is closed, and what is read still fits. -/
theorem fits_closeAll : ∀ (frames : List Frame) (body : List Term) (notes : List Diagnostic),
    Fits limit ⟨frames, body, notes⟩ → SequenceFits limit (closeAll frames body notes).1
  | [], body, notes, h => by
    have hbody : SequenceFits (limit - (0 : Nat)) body := h.body
    rw [Nat.cast_zero, Int.sub_zero] at hbody
    exact sequenceFits_reverse hbody
  | frame :: frames, body, notes, h =>
    fits_closeAll frames (frame.close none body :: frame.outer)
      (⟨frame.fault, frame.opening⟩ :: notes) ⟨h.frames.2.2.2, fits_close none h.frames h.body⟩

end Progress

/-- **The parentheses of what is read are nested no more deeply than the limit allows.** -/
theorem fits_of_readTerms {limit : Int} {catalog : Catalog} {tokens : List Token}
    {terms : List Term} {notes : List Diagnostic}
    (h : readTerms limit catalog tokens = .ok (terms, notes)) : SequenceFits limit terms := by
  obtain ⟨s, hread, hclose⟩ := exists_read_of_readTerms h
  have hstart : Progress.start.Fits limit := ⟨trivial, trivial⟩
  have hfits := (Progress.run_of_read hread).induction (motive := fun _ s => s.Fits limit) hstart
    fun hstep => hstep.fits
  have hterms := Progress.fits_closeAll s.frames s.body s.notes hfits
  rwa [hclose] at hterms

end Formulary
