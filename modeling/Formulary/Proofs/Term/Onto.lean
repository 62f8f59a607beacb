/-
# Reading inside what is open

A state may stand on another: its terms stand behind those of the other, in the same sequence, and its
open parentheses inside the open ones. The steps of reading do to a state on a base what they do to the
state, unless a closing parenthesis closes, or a comma divides, what belongs to the base, and as long as
the base does not end with an operand (`Progress.read_onto`).

Key definitions: `Fault.unpaired`, `commasInside`, `Progress.onto`.
Key theorems: `Progress.read_onto`.
-/
import Formulary.Proofs.Term.Run

namespace Formulary

/-- Whether a fault is a parenthesis or a brace without its other one. -/
def Fault.unpaired : Fault → Bool
  | dropped .loneBrace | unmatchedClosing | unclosedCall _ | unclosedGroup => true
  | dropped _ | missingArguments _ | unknownName _ | strayComma => false

/-- Whether all commas stand inside parentheses, where `depth` are open in front of the tokens. -/
def commasInside : Nat → List Token → Bool
  | _, [] => true
  | depth, ⟨.opening, _⟩ :: rest => commasInside (depth + 1) rest
  | depth, ⟨.closing, _⟩ :: rest => commasInside (depth - 1) rest
  | depth, ⟨.comma, _⟩ :: rest => 0 < depth && commasInside depth rest
  | depth, _ :: rest => commasInside depth rest

theorem Token.startsOpening_append {tokens more : List Token} (h : startsOpening tokens = false)
    (hmore : startsOpening more = false) : startsOpening (tokens ++ more) = false := by
  rcases tokens with _ | ⟨⟨l, position⟩, rest⟩
  · exact hmore
  · cases l with
    | opening => cases h
    | _ => rfl

namespace Progress

/-- Whether the innermost open parenthesis belongs to a call. -/
def inCall (s : Progress) : Bool :=
  match s.frames with
  | ⟨.call _ _ _, _, _⟩ :: _ => true
  | _ => false

/-- The open parentheses and the innermost sequence of a state on a base. -/
def stackOnto (base : Progress) : List Frame → List Term → List Frame × List Term
  | [], body => (base.frames, body ++ base.body)
  | frame :: frames, body =>
    ({ frame with outer := (stackOnto base frames frame.outer).2 } ::
      (stackOnto base frames frame.outer).1, body)

/-- A state on a base. -/
def onto (base s : Progress) : Progress :=
  ⟨(stackOnto base s.frames s.body).1, (stackOnto base s.frames s.body).2, s.notes ++ base.notes⟩

variable {limit : Int} {catalog : Catalog} {base s : Progress}

theorem stackOnto_cons (term : Term) (frames : List Frame) (body : List Term) :
    stackOnto base frames (term :: body) =
      ((stackOnto base frames body).1, term :: (stackOnto base frames body).2) := by
  cases frames <;> rfl

theorem length_stackOnto (frames : List Frame) (body : List Term) :
    (stackOnto base frames body).1.length = frames.length + base.frames.length := by
  induction frames generalizing body with
  | nil => exact (Nat.zero_add _).symm
  | cons frame frames ih => rw [stackOnto, List.length_cons, ih, List.length_cons, Nat.add_right_comm]

theorem onto_push (term : Term) : onto base (s.push term) = (onto base s).push term := by
  rw [onto, push, stackOnto_cons]
  rfl

theorem onto_note (fault : Fault) (position : Nat) :
    onto base (s.note fault position) = (onto base s).note fault position := rfl

theorem onto_enter (opened : Opened) (opening : Nat) :
    onto base (s.enter opened opening) = (onto base s).enter opened opening := rfl

theorem onto_refer (name : String) (position : Nat) :
    onto base (s.refer catalog name position) = (onto base s).refer catalog name position := by
  unfold refer
  split
  · exact onto_push _
  · rfl

theorem onto_readBare (name : String) (position : Nat) :
    onto base (s.readBare name position) = (onto base s).readBare name position := by
  unfold readBare
  split
  · exact onto_push _
  · rw [onto_push, onto_note]

/-- A closing parenthesis that closes one of the state closes the same one on a base. -/
theorem onto_leave {position : Nat} (h : s.frames ≠ []) :
    onto base (s.leave position) = (onto base s).leave position := by
  obtain ⟨_ | ⟨frame, frames⟩, body, notes⟩ := s
  · exact (h rfl).elim
  · rw [onto, leave, stackOnto_cons]
    rfl

/-- A comma does the same on a base, unless it divides the arguments of a call of the base. -/
theorem onto_separate {position : Nat} (h : base.inCall = false ∨ s.frames ≠ []) :
    onto base (s.separate position) = (onto base s).separate position := by
  obtain ⟨_ | ⟨⟨⟨start, name, arguments⟩ | _, opening, outer⟩, frames⟩, body, notes⟩ := s
  · have hcall := h.resolve_right fun hne => hne rfl
    obtain ⟨_ | ⟨⟨⟨start, name, arguments⟩ | _, opening, outer⟩, frames⟩, before, noted⟩ := base
    · rfl
    · cases hcall
    · rfl
  · rfl
  · rfl

theorem followsOperand_onto (hbase : base.followsOperand = false) :
    (onto base s).followsOperand = s.followsOperand := by
  obtain ⟨_ | ⟨frame, frames⟩, _ | ⟨term, body⟩, notes⟩ := s
  · exact hbase
  · rfl
  · rfl
  · rfl

/-- **Tokens are read on a base as they are read alone**, with more tokens behind them. -/
theorem read_onto {greater : Int} {tokens more : List Token} {s' : Progress}
    (h : read limit catalog tokens s = .ok s') (hlimit : limit + base.frames.length ≤ greater)
    (hpaired : ∀ d ∈ s'.notes, d.fault.unpaired = false) (hbase : base.followsOperand = false)
    (hmore : Token.startsOpening more = false)
    (hcommas : base.inCall = false ∨ commasInside s.frames.length tokens = true) :
    read greater catalog (tokens ++ more) (onto base s) =
      read greater catalog more (onto base s') := by
  have hdescend {s : Progress} (hle : (s.frames.length : Int) + 1 ≤ limit) :
      ((onto base s).frames.length : Int) + 1 ≤ greater := by
    rw [onto, length_stackOnto]
    omega
  fun_induction read limit catalog tokens s with
  | case1 s =>
    obtain rfl := Except.ok.inj h
    rfl
  | case2 name position opening rest s hword s₁ ih =>
    obtain ⟨hle, hrest⟩ := of_descend_bind h
    have hle : (s.frames.length : Int) + 1 ≤ limit := hle
    rw [← followsOperand_onto hbase] at hword
    rw [List.cons_append, List.cons_append, read_joined (hdescend hle) hword, ← onto_push,
      ← onto_enter]
    exact ih hrest hcommas
  | case3 name position opening rest s hword ih =>
    obtain ⟨hle, hrest⟩ := of_descend_bind h
    have hcall : (isOperator name && (onto base s).followsOperand) = false := by
      rw [followsOperand_onto hbase]
      simpa using hword
    rcases rest with _ | ⟨⟨l, closing⟩, rest⟩
    · -- The text ends behind the parenthesis, which is noted.
      obtain rfl := Except.ok.inj hrest
      cases hpaired _ List.mem_cons_self
    · cases l with
      | closing =>
        rw [List.cons_append, List.cons_append, List.cons_append,
          read_bareCall (hdescend hle) hcall, ← onto_push]
        exact ih hrest hcommas
      | _ =>
        rw [List.cons_append, List.cons_append, List.cons_append,
          read_call (hdescend hle) hcall (List.cons_ne_nil _ _) rfl, ← onto_enter]
        exact ih hrest hcommas
  | case4 name position rest s hrest ih =>
    have hopening := Token.startsOpening_append (startsOpening_eq_false hrest) hmore
    rw [List.cons_append, read_function hopening, ← onto_readBare]
    refine ih h ?_
    rw [length_frames_readBare]
    exact hcommas
  | case5 symbol position rest s ih =>
    rw [List.cons_append, read_symbol, ← onto_push]
    exact ih h hcommas
  | case6 name position rest s ih =>
    rw [List.cons_append, read, ← onto_refer]
    refine ih h ?_
    rw [length_frames_refer]
    exact hcommas
  | case7 literal number position rest s ih =>
    rw [List.cons_append, read_value, ← onto_push]
    exact ih h hcommas
  | case8 position rest s ih =>
    obtain ⟨hle, hrest⟩ := of_descend_bind h
    rw [List.cons_append, read_opening (hdescend hle), ← onto_enter]
    exact ih hrest hcommas
  | case9 position rest s ih =>
    have hopen : s.frames ≠ [] := by
      intro hframes
      have hnoted : (⟨.unmatchedClosing, position⟩ : Diagnostic) ∈ (s.leave position).notes := by
        rw [leave, hframes]
        exact List.mem_cons_self
      cases hpaired _ ((run_of_read h).notes_subset hnoted)
    rw [List.cons_append, read_closing, ← onto_leave hopen]
    refine ih h ?_
    rw [length_frames_leave]
    exact hcommas
  | case10 position rest s ih =>
    have hframes : base.inCall = false ∨ s.frames ≠ [] := by
      refine hcommas.imp_right fun hinside hnil => ?_
      rw [hnil] at hinside
      cases hinside
    rw [List.cons_append, read_comma, ← onto_separate hframes]
    refine ih h ?_
    rw [length_frames_separate]
    refine hcommas.imp_right fun hinside => ?_
    exact (Bool.and_eq_true_iff.mp hinside).2

end Progress
end Formulary
