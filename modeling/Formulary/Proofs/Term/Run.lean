/-
# Reading as steps

A run of the reader is a chain of steps. A step takes one token, or the tokens that start a call, and
pushes a term, notes a fault, opens or closes a parenthesis, or ends an argument. A relation says
all that a step can do, together with what it has checked before, so that what holds of a whole run
follows from what each kind of step keeps.

Key definitions: `Progress.Step`, `Progress.Run`.
Key theorems: `Progress.run_of_read`, `Progress.read_mono`, `Progress.Run.notes_subset`.
-/
import Formulary.Proofs.Term.Outline

namespace Formulary
namespace Progress

/-- Whether a lexeme is an operator where it does not start a call. -/
def IsWord (l : Lexeme) (word : String) : Prop :=
  (l = .function word ∧ isOperator word = true) ∨ l = .operator word

/-- One step of reading, from the tokens ahead and the state to those after it. -/
inductive Step (limit : Int) (catalog : Catalog) :
    List Token → Progress → List Token → Progress → Prop
  /-- An operator; the name of a function in front of a parenthesis is one behind an operand. -/
  | word {l word position rest s} (hword : IsWord l word)
      (hbehind : ∀ name, l = .function name → Token.startsOpening rest = true →
        s.followsOperand = true) :
      Step limit catalog (⟨l, position⟩ :: rest) s rest (s.push (.operator position word))
  | reference {name position rest s} :
      Step limit catalog (⟨.reference name, position⟩ :: rest) s rest (s.refer catalog name position)
  | value {literal number position rest s} :
      Step limit catalog (⟨.value literal number, position⟩ :: rest) s rest
        (s.push (.value position number))
  /-- A function name that stands alone. -/
  | missing {name position rest s} (hname : isOperator name = false) :
      Step limit catalog (⟨.function name, position⟩ :: rest) s rest
        ((s.note (.missingArguments name) position).push (.call position name none []))
  | bareCall {name position opening closing rest s} (hlimit : (s.frames.length : Int) + 1 ≤ limit)
      (hword : (isOperator name && s.followsOperand) = false) :
      Step limit catalog
        (⟨.function name, position⟩ :: ⟨.opening, opening⟩ :: ⟨.closing, closing⟩ :: rest) s rest
        (s.push (.call position name (some ⟨opening, some closing⟩) []))
  /-- A call at the end of the text. -/
  | unclosed {name position opening s} (hlimit : (s.frames.length : Int) + 1 ≤ limit)
      (hword : (isOperator name && s.followsOperand) = false) :
      Step limit catalog [⟨.function name, position⟩, ⟨.opening, opening⟩] s []
        ((s.note (.unclosedCall name) opening).push
          (.call position name (some ⟨opening, none⟩) []))
  | call {name position opening rest s} (hlimit : (s.frames.length : Int) + 1 ≤ limit)
      (hword : (isOperator name && s.followsOperand) = false)
      (hclosing : Token.startsClosing rest = false) :
      Step limit catalog (⟨.function name, position⟩ :: ⟨.opening, opening⟩ :: rest) s rest
        (s.enter (.call position name []) opening)
  | opening {position rest s} (hlimit : (s.frames.length : Int) + 1 ≤ limit) :
      Step limit catalog (⟨.opening, position⟩ :: rest) s rest (s.enter .group position)
  | closing {position rest s} :
      Step limit catalog (⟨.closing, position⟩ :: rest) s rest (s.leave position)
  | comma {position rest s} :
      Step limit catalog (⟨.comma, position⟩ :: rest) s rest (s.separate position)

/-- A chain of steps that takes all tokens. -/
inductive Run (limit : Int) (catalog : Catalog) : List Token → Progress → Progress → Prop
  | done {s} : Run limit catalog [] s s
  | step {tokens s tokens' s' s''} (hstep : Step limit catalog tokens s tokens' s')
      (hrun : Run limit catalog tokens' s' s'') : Run limit catalog tokens s s''

variable {limit : Int} {catalog : Catalog}

theorem le_of_descend {s : Progress} {position : Nat} (h : s.descend limit position = .ok ()) :
    (s.frames.length : Int) + 1 ≤ limit := by
  unfold descend at h
  split at h
  · cases h
  · omega

/-- What is behind a check that succeeds. -/
theorem of_descend_bind {s s' : Progress} {position : Nat} {next : Except Overflow Progress}
    (h : (s.descend limit position >>= fun _ => next) = .ok s') :
    (s.frames.length : Int) + 1 ≤ limit ∧ next = .ok s' := by
  cases hd : s.descend limit position with
  | error e =>
    rw [hd] at h
    cases h
  | ok u =>
    rw [hd] at h
    exact ⟨le_of_descend hd, h⟩

theorem startsOpening_eq_false {tokens : List Token}
    (h : ∀ opening rest, tokens = ⟨.opening, opening⟩ :: rest → False) :
    Token.startsOpening tokens = false := by
  rcases tokens with _ | ⟨⟨l, opening⟩, rest⟩
  · rfl
  · cases l with
    | opening => exact (h opening rest rfl).elim
    | _ => rfl

/-! ### How many parentheses are open -/

theorem length_frames_refer (name : String) (position : Nat) (s : Progress) :
    (s.refer catalog name position).frames = s.frames := by
  unfold refer
  split <;> rfl

theorem length_frames_readBare (name : String) (position : Nat) (s : Progress) :
    (s.readBare name position).frames = s.frames := by
  unfold readBare
  split <;> rfl

theorem length_frames_leave (position : Nat) (s : Progress) :
    (s.leave position).frames.length = s.frames.length - 1 := by
  obtain ⟨frames, body, notes⟩ := s
  cases frames <;> rfl

theorem length_frames_separate (position : Nat) (s : Progress) :
    (s.separate position).frames.length = s.frames.length := by
  obtain ⟨_ | ⟨⟨_ | _, opening, outer⟩, frames⟩, body, notes⟩ := s <;> rfl

/-! ### Runs -/

/-- **Reading is a run of steps.** -/
theorem run_of_read {tokens : List Token} {s s' : Progress}
    (h : read limit catalog tokens s = .ok s') : Run limit catalog tokens s s' := by
  fun_induction read limit catalog tokens s with
  | case1 s =>
    obtain rfl := Except.ok.inj h
    exact .done
  | case2 name position opening rest s hword s₁ ih =>
    -- The word is taken first, and the parenthesis then opens a group.
    obtain ⟨hlimit, hread⟩ := of_descend_bind h
    rw [Bool.and_eq_true] at hword
    exact .step (.word (.inl ⟨rfl, hword.1⟩) fun _ _ _ => hword.2)
      (.step (.opening hlimit) (ih hread))
  | case3 name position opening rest s hword ih =>
    obtain ⟨hlimit, hread⟩ := of_descend_bind h
    have hcall : (isOperator name && s.followsOperand) = false := by simpa using hword
    rcases rest with _ | ⟨⟨l, closing⟩, rest⟩
    · obtain rfl := Except.ok.inj hread
      exact .step (.unclosed hlimit hcall) .done
    · cases l with
      | closing => exact .step (.bareCall hlimit hcall) (ih hread)
      | _ => exact .step (.call hlimit hcall rfl) (ih hread)
  | case4 name position rest s hrest ih =>
    have hopening := startsOpening_eq_false hrest
    by_cases hname : isOperator name = true
    · rw [readBare, if_pos hname] at h ih
      exact .step (.word (.inl ⟨rfl, hname⟩) fun _ _ ho => by rw [hopening] at ho; cases ho) (ih h)
    · rw [readBare, if_neg hname] at h ih
      exact .step (.missing (by simpa using hname)) (ih h)
  | case5 symbol position rest s ih =>
    exact .step (.word (.inr rfl) fun _ hl => by cases hl) (ih h)
  | case6 name position rest s ih => exact .step .reference (ih h)
  | case7 literal number position rest s ih => exact .step .value (ih h)
  | case8 position rest s ih =>
    obtain ⟨hlimit, hread⟩ := of_descend_bind h
    exact .step (.opening hlimit) (ih hread)
  | case9 position rest s ih => exact .step .closing (ih h)
  | case10 position rest s ih => exact .step .comma (ih h)

/-- **What is read under a limit is read under any greater one.** -/
theorem read_mono {tokens : List Token} {s s' : Progress} {greater : Int}
    (h : read limit catalog tokens s = .ok s') (hle : limit ≤ greater) :
    read greater catalog tokens s = .ok s' := by
  fun_induction read limit catalog tokens s with
  | case1 s => exact h
  | case2 name position opening rest s hword s₁ ih =>
    obtain ⟨hlimit, hread⟩ := of_descend_bind h
    have hgreater : (s.frames.length : Int) + 1 ≤ greater := Int.le_trans hlimit hle
    rw [read_joined hgreater hword]
    exact ih hread
  | case3 name position opening rest s hword ih =>
    obtain ⟨hlimit, hread⟩ := of_descend_bind h
    have hgreater := Int.le_trans hlimit hle
    have hcall : (isOperator name && s.followsOperand) = false := by simpa using hword
    rcases rest with _ | ⟨⟨l, closing⟩, rest⟩
    · rw [read, if_neg hword, descend_of_le hgreater]
      exact hread
    · cases l with
      | closing =>
        rw [read_bareCall hgreater hcall]
        exact ih hread
      | _ =>
        rw [read_call hgreater hcall (List.cons_ne_nil _ _) rfl]
        exact ih hread
  | case4 name position rest s hrest ih =>
    rw [read_function (startsOpening_eq_false hrest)]
    exact ih h
  | case5 symbol position rest s ih =>
    rw [read_symbol]
    exact ih h
  | case6 name position rest s ih =>
    rw [read]
    exact ih h
  | case7 literal number position rest s ih =>
    rw [read_value]
    exact ih h
  | case8 position rest s ih =>
    obtain ⟨hlimit, hread⟩ := of_descend_bind h
    rw [read_opening (Int.le_trans hlimit hle)]
    exact ih hread
  | case9 position rest s ih =>
    rw [read_closing]
    exact ih h
  | case10 position rest s ih =>
    rw [read_comma]
    exact ih h

/-- What holds at the start of a run and is kept by its steps holds at its end. -/
theorem Run.induction {motive : List Token → Progress → Prop} {tokens : List Token}
    {s s' : Progress} (hrun : Run limit catalog tokens s s') (hstart : motive tokens s)
    (hstep : ∀ {tokens s tokens' s'}, Step limit catalog tokens s tokens' s' → motive tokens s →
      motive tokens' s') : motive [] s' := by
  induction hrun with
  | done => exact hstart
  | step hs _ ih => exact ih (hstep hs hstart)

theorem Step.notes_subset {tokens tokens' : List Token} {s s' : Progress}
    (hstep : Step limit catalog tokens s tokens' s') : s.notes ⊆ s'.notes := by
  cases hstep with
  | reference =>
    unfold refer
    split
    · exact List.Subset.refl _
    · exact List.subset_cons_self _ _
  | closing =>
    unfold leave
    split
    · exact List.Subset.refl _
    · exact List.subset_cons_self _ _
  | comma =>
    unfold separate
    split
    · exact List.Subset.refl _
    · exact List.subset_cons_self _ _
  | missing => exact List.subset_cons_self _ _
  | unclosed => exact List.subset_cons_self _ _
  | _ => exact List.Subset.refl _

/-- What is noted stays noted. -/
theorem Run.notes_subset {tokens : List Token} {s s' : Progress}
    (hrun : Run limit catalog tokens s s') : s.notes ⊆ s'.notes := by
  induction hrun with
  | done => exact List.Subset.refl _
  | step hstep _ ih => exact List.Subset.trans hstep.notes_subset ih

end Progress

/-- What is noted of an open parenthesis at the end of the text. -/
def Frame.unclosed (frame : Frame) : Diagnostic :=
  ⟨frame.fault, frame.opening⟩

/-- Closing what is open at the end of the text notes each parenthesis. -/
theorem Progress.notes_closeAll (frames : List Frame) (body : List Term)
    (notes : List Diagnostic) :
    (closeAll frames body notes).2 = notes.reverse ++ frames.map Frame.unclosed := by
  induction frames generalizing body notes with
  | nil => exact (List.append_nil _).symm
  | cons frame frames ih =>
    rw [closeAll, ih, List.reverse_cons, List.append_assoc]
    rfl

variable {limit : Int} {catalog : Catalog}

/-- Terms are what is left of a run when all that is open is closed. -/
theorem exists_read_of_readTerms {tokens : List Token} {terms : List Term}
    {notes : List Diagnostic} (h : readTerms limit catalog tokens = .ok (terms, notes)) :
    ∃ s, Progress.read limit catalog tokens .start = .ok s ∧
      Progress.closeAll s.frames s.body s.notes = (terms, notes) := by
  unfold readTerms at h
  cases hread : Progress.read limit catalog tokens .start with
  | error e =>
    rw [hread] at h
    cases h
  | ok s =>
    rw [hread] at h
    exact ⟨s, rfl, Except.ok.inj h⟩

end Formulary
