/-
# The grammar of formulas

An expression is a sequence of terms with operators between them. A term is a reference to an attribute
of the catalog, a value, a call with expressions for arguments, or an expression in parentheses. `AND`,
`OR` and `NOT` are operators as well as names of functions, so that the grammar does not tell which of
the two a word is; the check of a sequence only asks that operands and operators alternate
(`checkSequence_eq_nil_iff`).

Key definitions: `IsExpression`, `nesting`, `Role.alternates`.
Key theorems: `checkSequence_eq_nil_iff`, `Role.callsFit_of_alternates`, `Role.misreads_of_alternates`.
-/
import Formulary.Proofs.Tree.Forest
import Formulary.Structure
import Formulary.Token.Basic

namespace Formulary

/-! ### Expressions -/

/-- Whether a lexeme can stand between two terms. -/
inductive Lexeme.IsOperation : Lexeme → Prop
  | operator (symbol : String) : IsOperation (.operator symbol)
  | function {name : String} (h : name ∈ ["AND", "OR", "NOT"]) : IsOperation (.function name)

mutual

/-- The lexemes of an expression. -/
inductive IsExpression (catalog : Catalog) : List Lexeme → Prop
  | term {ls : List Lexeme} (h : IsTerm catalog ls) : IsExpression catalog ls
  | operation {ls ms : List Lexeme} {l : Lexeme} (h : IsTerm catalog ls) (hl : l.IsOperation)
      (hrest : IsExpression catalog ms) : IsExpression catalog (ls ++ l :: ms)

/-- The lexemes of a term. -/
inductive IsTerm (catalog : Catalog) : List Lexeme → Prop
  | reference {name : String} (h : (catalog.findByName? name).isSome = true) :
      IsTerm catalog [.reference name]
  | value (literal : String) (number : Number) : IsTerm catalog [.value literal number]
  | bareCall (name : String) : IsTerm catalog [.function name, .opening, .closing]
  | call {ls : List Lexeme} (name : String) (h : IsArguments catalog ls) :
      IsTerm catalog (.function name :: .opening :: ls ++ [.closing])
  | group {ls : List Lexeme} (h : IsExpression catalog ls) :
      IsTerm catalog (.opening :: ls ++ [.closing])

/-- The lexemes of the arguments of a call that has some. -/
inductive IsArguments (catalog : Catalog) : List Lexeme → Prop
  | last {ls : List Lexeme} (h : IsExpression catalog ls) : IsArguments catalog ls
  | more {ls ms : List Lexeme} (h : IsExpression catalog ls) (hrest : IsArguments catalog ms) :
      IsArguments catalog (ls ++ .comma :: ms)

end

/-- How deeply parentheses are nested in lexemes, below so many that are open already. A closing one
that closes nothing does not count. -/
def nesting : Nat → List Lexeme → Nat
  | depth, [] => depth
  | depth, .opening :: rest => nesting (depth + 1) rest
  | depth, .closing :: rest => max depth (nesting (depth - 1) rest)
  | depth, _ :: rest => nesting depth rest

/-! ### Alternation -/

namespace Role

/-- Whether operands and operators alternate, from an operand to an operand. -/
def alternates : List Role → Bool
  | [] => false
  | [r] => r.isOperand
  | r :: s :: rest => r.isOperand && !s.isOperand && alternates rest

/-- Only what is an operand counts. -/
theorem alternates_congr {α : Type} {f g : α → Role} : ∀ {l : List α},
    (∀ a ∈ l, (f a).isOperand = (g a).isOperand) → alternates (l.map f) = alternates (l.map g)
  | [], _ => rfl
  | [a], h => h a List.mem_cons_self
  | a :: b :: rest, h => by
    have hrest := fun c hc => h c (List.mem_cons_of_mem a (List.mem_cons_of_mem b hc))
    simp only [List.map_cons, alternates]
    rw [h a List.mem_cons_self, h b (List.mem_cons_of_mem a List.mem_cons_self), alternates_congr hrest]

/-- An odd number of roles in front alternates by itself, and may be taken for one operand. -/
theorem alternates_append {r : Role} (hr : r.isOperand = true) : ∀ {rs qs : List Role},
    rs.length % 2 = 1 → alternates (rs ++ qs) = (alternates rs && alternates (r :: qs))
  | [s], [], _ => by
    have hone : alternates [r] = true := hr
    rw [List.append_nil, hone, Bool.and_true]
  | [s], q :: qs, _ => by
    rw [List.singleton_append, alternates, alternates, alternates, hr, Bool.true_and, Bool.and_assoc]
  | s :: t :: rs, qs, hodd => by
    have hodd : rs.length % 2 = 1 := by
      rw [List.length_cons, List.length_cons] at hodd
      omega
    rw [List.cons_append, List.cons_append, alternates, alternates, alternates_append hr hodd,
      Bool.and_assoc _ (alternates rs)]

theorem isOperand_of_mem_getLast? {r : Role} : ∀ {rs : List Role}, alternates rs = true →
    r ∈ rs.getLast? → r.isOperand = true
  | [s], h, hr => by
    obtain rfl := Option.some.inj hr
    exact h
  | s :: t :: rest, h, hr => by
    rw [alternates, Bool.and_eq_true] at h
    cases rest with
    | nil => cases h.2
    | cons q rest =>
      rw [List.getLast?_cons_cons, List.getLast?_cons_cons] at hr
      exact isOperand_of_mem_getLast? h.2 hr

theorem ne_word_of_isOperand {r : Role} (h : r.isOperand = true) : r ≠ word := by
  rintro rfl
  cases h

theorem ne_wordCall_of_not_isOperand {r : Role} (h : r.isOperand = false) : r ≠ wordCall := by
  rintro rfl
  cases h

/-- No operand of an alternating sequence stands behind an operand. -/
theorem callsFit_of_alternates : ∀ {rs : List Role}, alternates rs = true → callsFit false rs = true
  | [r], _ => by simp [callsFit]
  | r :: s :: rest, h => by
    rw [alternates, Bool.and_eq_true, Bool.and_eq_true, Bool.not_eq_true'] at h
    obtain ⟨⟨-, hs⟩, hrest⟩ := h
    have hcall := ne_wordCall_of_not_isOperand hs
    rw [callsFit, callsFit, hs, callsFit_of_alternates hrest]
    simp [hcall]

/-- Every operator of an alternating sequence stands behind an operand. -/
theorem misreads_of_alternates : ∀ {rs : List Role}, alternates rs = true → misreads false rs = 0
  | [r], _ => by simp [misreads]
  | r :: s :: rest, h => by
    rw [alternates, Bool.and_eq_true, Bool.and_eq_true, Bool.not_eq_true'] at h
    obtain ⟨⟨hr, hs⟩, hrest⟩ := h
    have hword := ne_word_of_isOperand hr
    rw [misreads, misreads, hr, hs, misreads_of_alternates hrest]
    simp [hword]

end Role

theorem Node.isOperand_role (node : Node) : node.role.isOperand = node.isOperand := by
  unfold role isOperand
  cases node.kind with
  | operator =>
    simp only [Role.ofOperator]
    split <;> rfl
  | function =>
    simp only [Role.ofCall]
    split <;> rfl
  | _ => rfl

theorem Node.kind_eq_operator_iff (node : Node) : node.kind = .operator ↔ node.isOperand = false := by
  simp [isOperand, Kind.isOperand]

theorem Node.kind_ne_operator {node : Node} (h : node.isOperand = true) : node.kind ≠ .operator := by
  rw [Ne, kind_eq_operator_iff, h]
  exact Bool.noConfusion

/-- In a sequence that starts with an operand, the faults are found where operands and operators do
not alternate. -/
theorem alternates_iff (node : Node) (previous : Option Node) : ∀ rest : List Node,
    Role.alternates ((node :: rest).map Node.role) = true ↔
      node.isOperand = true ∧ brokenPairs (node :: rest) = [] ∧
        missingOperands previous (node :: rest) = []
  | [] => by
    rw [List.map_singleton, Role.alternates, Node.isOperand_role]
    by_cases hnode : node.isOperand = true
    · have hkind : ¬node.kind = .operator := by simp [Node.kind_eq_operator_iff, hnode]
      simp [hnode, brokenPairs, missingOperands, hkind]
    · simp [hnode]
  | next :: rest => by
    rw [List.map_cons, List.map_cons, Role.alternates, Node.isOperand_role, Node.isOperand_role]
    by_cases hnode : node.isOperand = true
    · have hkind : ¬node.kind = .operator := by simp [Node.kind_eq_operator_iff, hnode]
      by_cases hnext : next.isOperand = true
      · simp [hnode, hnext, brokenPairs]
      · have hoperator : next.kind = .operator := by simpa [Node.kind_eq_operator_iff] using hnext
        rcases rest with _ | ⟨third, rest⟩
        · simp [hnode, hnext, missingOperands, hkind, hoperator, isOperandBeside, Role.alternates]
        · have ih := alternates_iff third (some next) rest
          have hbroken : brokenPairs (node :: next :: third :: rest) =
              brokenPairs (third :: rest) := by
            simp [brokenPairs, hnext]
          have hmissing : missingOperands previous (node :: next :: third :: rest) = [] ↔
              third.isOperand = true ∧ missingOperands (some next) (third :: rest) = [] := by
            rw [missingOperands, missingOperands]
            by_cases hthird : third.isOperand = true <;>
              simp [hkind, hoperator, isOperandBeside, hnode, hthird]
          rw [hbroken, hmissing, Bool.and_eq_true, ih]
          simp only [hnode, hnext, Bool.not_false, Bool.and_self, true_and]
          tauto
    · simp [hnode]

/-- **Nothing is wrong with a sequence that is not empty if and only if operands and operators
alternate in it.** -/
theorem checkSequence_eq_nil_iff (nodes : List Node) :
    nodes ≠ [] ∧ checkSequence nodes = [] ↔ Role.alternates (nodes.map Node.role) = true := by
  rcases nodes with _ | ⟨node, rest⟩
  · simp [Role.alternates]
  · have hlacks : node.isOperand = true → lacksOperands (node :: rest) = false := by
      intro hnode
      simp [lacksOperands, hnode]
    have hfirst : missingOperands none (node :: rest) = [] → node.isOperand = true := by
      intro hmissing
      by_contra hnode
      have hkind : node.kind = .operator := by simpa [Node.kind_eq_operator_iff] using hnode
      rw [missingOperands, if_pos hkind] at hmissing
      simp [isOperandBeside] at hmissing
    rw [alternates_iff node none rest]
    unfold checkSequence
    constructor
    · rintro ⟨-, hcheck⟩
      by_cases hoperands : lacksOperands (node :: rest) = true
      · rw [if_pos hoperands] at hcheck
        cases hcheck
      · rw [if_neg hoperands] at hcheck
        obtain ⟨hbroken, hmissing⟩ := List.append_eq_nil_iff.mp hcheck
        exact ⟨hfirst hmissing, List.map_eq_nil_iff.mp hbroken, hmissing⟩
    · rintro ⟨hnode, hbroken, hmissing⟩
      refine ⟨List.cons_ne_nil _ _, ?_⟩
      rw [hlacks hnode, if_neg Bool.false_ne_true, hbroken, hmissing]
      rfl

end Formulary
