/-
# Other identifiers

The reports read identifiers only to tell nodes apart, and they read no number. So a map of nodes that
renames the identifiers, and leaves all else but the numbers as it is, renames the identifiers in what the
reports say, and does nothing else to it. Here it is followed through the checks of a sequence
(`checkSequence_map`), and through the operations on lists that compare identifiers; for these no two
identifiers may become one.

Key definitions: `Relabels`, `Issue.relabel`, `BrokenConnection.relabel`.
Key theorems: `checkSequence_map`, `brokenConnections_map`, `eraseDups_map`.
-/
import Mathlib.Data.Set.Function
import Formulary.Sorting
import Formulary.Structure

namespace Formulary

/-- Whether a map of nodes renames the identifiers and leaves all else but the numbers as it is. -/
structure Relabels (r : String → String) (f : Node → Node) : Prop where
  id : ∀ node, (f node).id = r node.id
  parent : ∀ node, (f node).parent = node.parent.map r
  kind : ∀ node, (f node).kind = node.kind
  reference : ∀ node, (f node).reference = node.reference
  operator : ∀ node, (f node).operator = node.operator
  function : ∀ node, (f node).function = node.function
  slot : ∀ node, (f node).slot = node.slot

/-- An issue with the identifiers of nodes renamed. -/
def Issue.relabel (r : String → String) : Issue → Issue
  | operatorsWithoutOperands => operatorsWithoutOperands
  | missingOperator before after id => missingOperator before after (r id)
  | missingOperand side symbol id => missingOperand side symbol (r id)
  | duplicateId id uses => duplicateId (r id) uses
  | orphan id parent => orphan (r id) (r parent)
  | parentCycle id => parentCycle (r id)
  | leafHasChildren kind parent id => leafHasChildren kind (r parent) (r id)
  | invalidFunctionChild function id => invalidFunctionChild function (r id)
  | invalidArgumentGroup id => invalidArgumentGroup (r id)
  | unknownOperator symbol id => unknownOperator symbol (r id)
  | emptyReference id => emptyReference (r id)
  | unknownReference referred id => unknownReference referred (r id)
  | unknownFunction name id => unknownFunction name (r id)
  | duplicateArgument name slot id => duplicateArgument name slot (r id)
  | argumentGaps name id => argumentGaps name (r id)
  | arityMismatch name expected actual id => arityMismatch name expected actual (r id)
  | noSuchArgument name slot id => noSuchArgument name slot (r id)
  | emptyGroup id => emptyGroup (r id)
  | operandType family symbol side actual id => operandType family symbol side actual (r id)
  | operandConflict family symbol left right id => operandConflict family symbol left right (r id)
  | argumentType name expected place actual id => argumentType name expected place actual (id.map r)
  | negatedType name actual id => negatedType name actual (id.map r)
  | conditionType name actual id => conditionType name actual (id.map r)
  | branchConflict name whenTrue whenFalse id => branchConflict name whenTrue whenFalse (id.map r)

/-- A broken connection with the identifiers renamed. -/
def BrokenConnection.relabel (r : String → String) (broken : BrokenConnection) : BrokenConnection :=
  ⟨r broken.before, r broken.after⟩

namespace Issue

@[simp] theorem code_relabel (r : String → String) (issue : Issue) :
    (issue.relabel r).code = issue.code := by
  cases issue <;> rfl

@[simp] theorem node?_relabel (r : String → String) (issue : Issue) :
    (issue.relabel r).node? = issue.node?.map r := by
  cases issue <;> rfl

theorem relabel_id : Issue.relabel id = id := by
  funext issue
  cases issue <;> simp [relabel]

end Issue

namespace Relabels

variable {r : String → String} {f : Node → Node}

theorem isOperand (h : Relabels r f) (node : Node) : (f node).isOperand = node.isOperand := by
  rw [Node.isOperand, Node.isOperand, h.kind]

theorem isArgument (h : Relabels r f) (node : Node) : (f node).isArgument = node.isArgument := by
  rw [Node.isArgument, Node.isArgument, h.kind, h.slot]

end Relabels

/-! ### Sequences -/

section Sequences

variable {r : String → String} {f : Node → Node} (h : Relabels r f)

include h

theorem brokenPairs_map : ∀ nodes : List Node,
    brokenPairs (nodes.map f) = (brokenPairs nodes).map (Prod.map f f)
  | [] => rfl
  | [_] => rfl
  | node :: next :: rest => by
    have ih := brokenPairs_map (next :: rest)
    simp only [List.map_cons] at ih
    simp only [List.map_cons, brokenPairs, h.isOperand, ih]
    split <;> rfl

theorem isOperandBeside_map (neighbour : Option Node) :
    isOperandBeside (neighbour.map f) = isOperandBeside neighbour := by
  cases neighbour with
  | none => rfl
  | some node => exact h.isOperand node

theorem missingOperands_map : ∀ (previous : Option Node) (nodes : List Node),
    missingOperands (previous.map f) (nodes.map f) =
      (missingOperands previous nodes).map (Issue.relabel r)
  | _, [] => rfl
  | previous, node :: rest => by
    have ih := missingOperands_map (some node) rest
    rw [Option.map_some] at ih
    rw [List.map_cons, missingOperands, missingOperands, List.head?_map, isOperandBeside_map h,
      isOperandBeside_map h, ih, h.kind, h.operator, h.id, List.map_append]
    congr 1
    split_ifs <;> rfl

theorem lacksOperands_map (nodes : List Node) : lacksOperands (nodes.map f) = lacksOperands nodes := by
  simp only [lacksOperands, List.any_map, Function.comp_def, h.kind, h.isOperand]

theorem checkSequence_map (nodes : List Node) :
    checkSequence (nodes.map f) = (checkSequence nodes).map (Issue.relabel r) := by
  have hmissing := missingOperands_map h none nodes
  rw [Option.map_none] at hmissing
  have hbroken : ((brokenPairs nodes).map (Prod.map f f)).map
      (fun pair => Issue.missingOperator pair.1.kind pair.2.kind pair.2.id) =
      ((brokenPairs nodes).map fun pair => Issue.missingOperator pair.1.kind pair.2.kind pair.2.id).map
        (Issue.relabel r) := by
    simp only [List.map_map, Function.comp_def, Prod.map, h.kind, h.id, Issue.relabel]
  rw [checkSequence, checkSequence, brokenPairs_map h, lacksOperands_map h, hmissing, hbroken]
  split
  · rfl
  · rw [List.map_append]

theorem brokenConnections_map (nodes : List Node) :
    brokenConnections (nodes.map f) =
      (brokenConnections nodes).map (BrokenConnection.relabel r) := by
  simp only [brokenConnections, brokenPairs_map h, List.map_map, Function.comp_def, Prod.map, h.id,
    BrokenConnection.relabel]

end Sequences

/-! ### Lists -/

theorem insertBy_map {α β : Type} {le : α → α → Bool} {ge : β → β → Bool} {f : α → β}
    (h : ∀ a b, ge (f a) (f b) = le a b) (a : α) :
    ∀ l : List α, insertBy ge (f a) (l.map f) = (insertBy le a l).map f
  | [] => rfl
  | b :: rest => by
    rw [List.map_cons, insertBy, insertBy, h, insertBy_map h a rest]
    split <;> rfl

theorem sortBy_map {α β : Type} {le : α → α → Bool} {ge : β → β → Bool} {f : α → β}
    (h : ∀ a b, ge (f a) (f b) = le a b) :
    ∀ l : List α, sortBy ge (l.map f) = (sortBy le l).map f
  | [] => rfl
  | a :: rest => by rw [List.map_cons, sortBy, sortBy, sortBy_map h rest, insertBy_map h]

theorem contains_map {α β : Type} [DecidableEq α] [DecidableEq β] {f : α → β} {S : Set α}
    (hf : Set.InjOn f S) {a : α} (ha : a ∈ S) {l : List α} (hl : ∀ b ∈ l, b ∈ S) :
    (l.map f).contains (f a) = l.contains a := by
  rw [Bool.eq_iff_iff, List.contains_iff_mem, List.contains_iff_mem, List.mem_map]
  constructor
  · rintro ⟨b, hb, heq⟩
    exact hf (hl b hb) ha heq ▸ hb
  · exact fun hmem => ⟨a, hmem, rfl⟩

theorem eraseDups_map {α β : Type} [DecidableEq α] [DecidableEq β] {f : α → β} {S : Set α}
    (hf : Set.InjOn f S) {l : List α} (hl : ∀ a ∈ l, a ∈ S) :
    (l.map f).eraseDups = l.eraseDups.map f := by
  induction hlength : l.length using Nat.strong_induction_on generalizing l with
  | _ n ih =>
    cases l with
    | nil => rfl
    | cons a rest =>
      have hrest : ∀ b ∈ rest.filter fun b => !b == a, b ∈ S :=
        fun b hb => hl b (List.mem_cons_of_mem _ (List.mem_filter.mp hb).1)
      have hlt : (rest.filter fun b => !b == a).length < n :=
        hlength ▸ Nat.lt_succ_of_le (List.length_filter_le _ _)
      have hfilter : (rest.map f).filter (fun b => !b == f a) =
          (rest.filter fun b => !b == a).map f := by
        rw [List.filter_map]
        refine congrArg _ (List.filter_congr fun b hb => ?_)
        have heq := hf.eq_iff (hl b (List.mem_cons_of_mem _ hb)) (hl a List.mem_cons_self)
        simp [heq]
      rw [List.map_cons, List.eraseDups_cons, List.eraseDups_cons, hfilter, ih _ hlt hrest rfl,
        List.map_cons]

end Formulary
