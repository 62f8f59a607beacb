/-
# How an outline comes back

The canonical text of a sequence is read back from left to right, and an operator `AND`, `OR` or `NOT`
that stands in front of a group and not behind an operand comes back as a call. Two calls that are
written alike, without arguments and with one empty argument, come back as the first. Nothing else is
read differently, so that an outline without such operators and calls comes back as it is
(`sequenceReread_of_faithful`).

Key definitions: `Outline.sequenceReread`, `Outline.Faithful`.
Key theorems: `Outline.sequenceReread_eq_map`, `Outline.sequenceReread_of_faithful`.
-/
import Formulary.Proofs.Outline.Basic

namespace Formulary
namespace Outline

/-- Arguments as they are read: a single one that is empty is none. -/
def sole : List (List Outline) → List (List Outline)
  | [[]] => []
  | arguments => arguments

/-- The part that is read where an operator stands in front of a group: with no operand before it,
the name of a function makes it a call. -/
def joinWord (before : Bool) (symbol : String) (body : List Outline) : List Outline :=
  if isFunctionName symbol && !before then [call symbol (sole [body])]
  else [operator symbol, group body]

mutual

/-- What comes back of a part of a formula that no operator in front of it turns into a call. -/
def reread : Outline → Outline
  | reference id => reference id
  | operator symbol => operator symbol
  | value number => value number
  | call name arguments => call name (sole (argumentReread arguments))
  | group body => group (sequenceReread false body)

/-- What comes back of a sequence; `before` tells whether an operand stands before it. -/
def sequenceReread : Bool → List Outline → List Outline
  | _, [] => []
  | before, operator symbol :: group body :: rest =>
    joinWord before symbol (sequenceReread false body) ++ sequenceReread true rest
  | _, o :: rest => o.reread :: sequenceReread o.isOperand rest

/-- What comes back of arguments. -/
def argumentReread : List (List Outline) → List (List Outline)
  | [] => []
  | argument :: rest => sequenceReread false argument :: argumentReread rest

end

theorem isOperand_reread (o : Outline) : o.reread.isOperand = o.isOperand := by
  cases o <;> rfl

/-- Whether a sequence starts with a group. -/
def startsGroup : List Outline → Bool
  | group _ :: _ => true
  | _ => false

theorem sequenceReread_cons {before : Bool} {o : Outline} {rest : List Outline}
    (h : o.isOperand = true ∨ startsGroup rest = false) :
    sequenceReread before (o :: rest) = o.reread :: sequenceReread o.isOperand rest := by
  cases o with
  | operator symbol =>
    rcases rest with _ | ⟨_ | _ | _ | _ | _, rest⟩
    all_goals first | rfl | simp [isOperand, startsGroup] at h
  | _ => rfl

/-- An operator comes back as it is, unless it is read together with a group. -/
theorem sequenceReread_operator {before : Bool} {symbol : String} {os : List Outline}
    (h : ¬(isFunctionName symbol && !before && startsGroup os) = true) :
    sequenceReread before (operator symbol :: os) = operator symbol :: sequenceReread false os := by
  rcases os with _ | ⟨_ | _ | _ | _ | body, rest⟩
  all_goals try rfl
  have hword : ¬(isFunctionName symbol && !before) = true := by simpa [startsGroup] using h
  rw [sequenceReread, joinWord, if_neg hword]
  rfl

theorem joinWord_ne_nil (before : Bool) (symbol : String) (body : List Outline) :
    joinWord before symbol body ≠ [] := by
  unfold joinWord
  split <;> exact List.cons_ne_nil _ _

theorem sequenceReread_ne_nil {before : Bool} {os : List Outline} (h : os ≠ []) :
    sequenceReread before os ≠ [] := by
  obtain ⟨o, rest, rfl⟩ := List.exists_cons_of_ne_nil h
  by_cases hgroup : o.isOperand = true ∨ startsGroup rest = false
  · rw [sequenceReread_cons hgroup]
    exact List.cons_ne_nil _ _
  · rcases o with _ | symbol | _ | _ | _ <;> try simp [isOperand] at hgroup
    rcases rest with _ | ⟨_ | _ | _ | _ | body, rest⟩ <;> try simp [startsGroup] at hgroup
    rw [sequenceReread]
    exact List.append_ne_nil_of_left_ne_nil (joinWord_ne_nil _ _ _) _

/-- A sequence that comes back as it is, as far as it does not hang on what is inside its parts. -/
def Plainly (before : Bool) (os : List Outline) : Prop :=
  Role.misreads before (os.map role) = 0 ∧ ∀ o ∈ os, o.isHollow = false

/-- A sequence that comes back as it is, with all that is inside it. -/
def Faithful (os : List Outline) : Prop := ∀ q ∈ sequences os, Plainly false q

theorem isHollow_call {name : String} {arguments : List (List Outline)} (h : arguments ≠ [[]]) :
    (call name arguments).isHollow = false := by
  unfold isHollow
  split
  · next heq => exact (h (call.inj heq).2).elim
  · rfl

theorem sole_of_not_hollow {name : String} {arguments : List (List Outline)}
    (h : (call name arguments).isHollow = false) : sole arguments = arguments := by
  unfold sole
  split
  · cases h
  · rfl

/-- Only the argument of a hollow call is lost. -/
theorem length_sole (name : String) (arguments : List (List Outline)) :
    (sole arguments).length = if (call name arguments).isHollow then 0 else arguments.length := by
  by_cases h : arguments = [[]]
  · subst h
    rfl
  · have hhollow := @isHollow_call name arguments h
    rw [hhollow, sole_of_not_hollow hhollow]
    rfl

theorem head?_map_role (os : List Outline) :
    ((os.map role).head? = some .group) ↔ startsGroup os = true := by
  rcases os with _ | ⟨_ | symbol | _ | ⟨name, arguments⟩ | _, rest⟩
  · simp [startsGroup]
  · simp [startsGroup, role]
  · simp only [List.map_cons, List.head?_cons, role, Role.ofOperator, startsGroup]
    split <;> simp
  · simp [startsGroup, role]
  · simp only [List.map_cons, List.head?_cons, role, Role.ofCall, startsGroup]
    split <;> simp
  · simp [startsGroup, role]

theorem misreads_tail {before : Bool} {o : Outline} {rest : List Outline}
    (h : Role.misreads before ((o :: rest).map role) = 0) :
    Role.misreads o.isOperand (rest.map role) = 0 := by
  rw [List.map_cons, Role.misreads, isOperand_role] at h
  omega

/-- An operator in front of a group stays an operator there. -/
theorem joinWord_of_misreads {before : Bool} {symbol : String} {body rest : List Outline}
    (h : Role.misreads before ((operator symbol :: group body :: rest).map role) = 0)
    (os : List Outline) : joinWord before symbol os = [operator symbol, group os] := by
  rw [List.map_cons, List.map_cons, Role.misreads_cons_cons] at h
  unfold Outline.joinWord
  by_cases hword : isFunctionName symbol && !before
  · rw [Bool.and_eq_true] at hword
    simp [role, Role.ofOperator, hword.1, hword.2] at h
  · rw [if_neg hword]

/-- **If no operator comes back as a call, the parts of a sequence come back one by one.** -/
theorem sequenceReread_eq_map : ∀ {before : Bool} {os : List Outline},
    Role.misreads before (os.map role) = 0 → sequenceReread before os = os.map reread
  | _, [], _ => rfl
  | before, o :: rest, h => by
    have hrest := sequenceReread_eq_map (misreads_tail h)
    by_cases hgroup : o.isOperand = true ∨ startsGroup rest = false
    · rw [sequenceReread_cons hgroup, hrest, List.map_cons]
    · rcases o with _ | symbol | _ | _ | _ <;> try simp [isOperand] at hgroup
      rcases rest with _ | ⟨_ | _ | _ | _ | body, rest⟩ <;> try simp [startsGroup] at hgroup
      rw [sequenceReread_cons (.inl rfl), reread, List.map_cons, reread] at hrest
      have hbehind : sequenceReread true rest = rest.map reread := (List.cons.inj hrest).2
      rw [sequenceReread, joinWord_of_misreads h, hbehind]
      rfl

mutual

theorem reread_of_faithful : ∀ {o : Outline}, o.isHollow = false →
    (∀ q ∈ o.inner, Plainly false q) → o.reread = o
  | reference _, _, _ => rfl
  | operator _, _, _ => rfl
  | value _, _, _ => rfl
  | call name arguments, hhollow, h => by
    rw [reread, argumentReread_of_faithful h, sole_of_not_hollow hhollow]
  | group body, _, h => by
    rw [reread, sequenceReread_of_plainly (h body List.mem_cons_self)
      fun q hq => h q (List.mem_cons_of_mem _ hq)]

theorem map_reread_of_faithful : ∀ {os : List Outline}, (∀ o ∈ os, o.isHollow = false) →
    (∀ q ∈ sequenceInner os, Plainly false q) → os.map reread = os
  | [], _, _ => rfl
  | o :: rest, hhollow, h => by
    have ho := reread_of_faithful (hhollow o List.mem_cons_self)
      fun q hq => h q (List.mem_append_left _ hq)
    have hrest := map_reread_of_faithful (fun u hu => hhollow u (List.mem_cons_of_mem _ hu))
      fun q hq => h q (List.mem_append_right _ hq)
    rw [List.map_cons, ho, hrest]

theorem sequenceReread_of_plainly : ∀ {before : Bool} {os : List Outline}, Plainly before os →
    (∀ q ∈ sequenceInner os, Plainly false q) → sequenceReread before os = os
  | before, os, hos, h => by
    rw [sequenceReread_eq_map hos.1, map_reread_of_faithful hos.2 h]

theorem argumentReread_of_faithful : ∀ {as : List (List Outline)},
    (∀ q ∈ argumentInner as, Plainly false q) → argumentReread as = as
  | [], _ => rfl
  | a :: rest, h => by
    have ha := sequenceReread_of_plainly (h a List.mem_cons_self)
      fun q hq => h q (List.mem_cons_of_mem _ (List.mem_append_left _ hq))
    have hrest := argumentReread_of_faithful
      fun q hq => h q (List.mem_cons_of_mem _ (List.mem_append_right _ hq))
    rw [argumentReread, ha, hrest]

end

/-- **A faithful sequence comes back as it is.** -/
theorem sequenceReread_of_faithful {os : List Outline} (h : Faithful os) :
    sequenceReread false os = os :=
  sequenceReread_of_plainly (h os List.mem_cons_self) fun q hq => h q (List.mem_cons_of_mem _ hq)

theorem isHollow_settled (o : Outline) : o.settled.isHollow = o.isHollow := by
  rcases o with _ | _ | _ | ⟨name, _ | ⟨_ | ⟨o, os⟩, _ | ⟨b, as⟩⟩⟩ | _ <;> rfl

theorem Faithful.settled {os : List Outline} (h : Faithful os) : Faithful (sequenceSettled os) := by
  intro q hq
  rw [sequences_settled] at hq
  obtain ⟨r, hr, rfl⟩ := List.mem_map.mp hq
  obtain ⟨hmisreads, hhollow⟩ := h r hr
  refine ⟨by rw [map_role_settled]; exact hmisreads, fun u hu => ?_⟩
  rw [sequenceSettled_eq_map] at hu
  obtain ⟨o, ho, rfl⟩ := List.mem_map.mp hu
  rw [isHollow_settled]
  exact hhollow o ho

/-! ### The height of what comes back -/

theorem argumentHeight_sole (as : List (List Outline)) :
    argumentHeight (sole as) = argumentHeight as := by
  unfold sole
  split <;> rfl

theorem sequenceHeight_joinWord (before : Bool) (symbol : String) (body : List Outline) :
    sequenceHeight (joinWord before symbol body) = 1 + sequenceHeight body := by
  unfold joinWord
  split
  · simp [sequenceHeight, height, argumentHeight_sole, argumentHeight]
  · simp [sequenceHeight, height]

mutual

theorem height_reread : ∀ o : Outline, o.reread.height = o.height
  | reference _ => rfl
  | operator _ => rfl
  | value _ => rfl
  | call _ arguments => by
    rw [reread, height, height, argumentHeight_sole, argumentHeight_reread arguments]
  | group body => by rw [reread, height, height, sequenceHeight_reread false body]

/-- What comes back is as high as what was written. -/
theorem sequenceHeight_reread (before : Bool) : ∀ os : List Outline,
    sequenceHeight (sequenceReread before os) = sequenceHeight os
  | [] => rfl
  | o :: rest => by
    by_cases hgroup : o.isOperand = true ∨ startsGroup rest = false
    · rw [sequenceReread_cons hgroup, sequenceHeight, sequenceHeight, height_reread o,
        sequenceHeight_reread o.isOperand rest]
    · rcases o with _ | symbol | _ | _ | _ <;> try simp [isOperand] at hgroup
      rcases rest with _ | ⟨_ | _ | _ | _ | body, rest⟩ <;> try simp [startsGroup] at hgroup
      have hbody := sequenceHeight_reread false body
      have hrest := sequenceHeight_reread true rest
      rw [sequenceReread, sequenceHeight_append, sequenceHeight_joinWord, hbody, hrest]
      simp only [sequenceHeight, height]
      omega

theorem argumentHeight_reread : ∀ as : List (List Outline),
    argumentHeight (argumentReread as) = argumentHeight as
  | [] => rfl
  | a :: rest => by
    rw [argumentReread, argumentHeight, argumentHeight, sequenceHeight_reread false a,
      argumentHeight_reread rest]

end

end Outline
end Formulary
