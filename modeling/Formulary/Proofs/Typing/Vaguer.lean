/-
# Unknown types are permissive

A type is vaguer than another if it is unknown or the same. If nothing is wrong with the types of a store
under a catalog, then nothing is wrong under a catalog that declares vaguer types, and all types that are
inferred are vaguer (`inferTypes_vaguer`). The types would not be without the premise: a conditional has
the type of its second branch once the first is unknown, and that is the same type only if the branches
do not conflict.

Key definitions: `DataType.Vaguer`, `VaguerEntries`, `Catalog.Vaguer`, `Typed.Vaguer`.
Key theorems: `functionTyping_vaguer`, `Typed.foldOperators_vaguer`, `Store.inferTypes_vaguer`.
-/
import Mathlib.Data.List.Forall2
import Formulary.Typing.Inference

namespace Formulary

/-! ### Vaguer types -/

namespace DataType

/-- Whether a type says no more than another one. -/
inductive Vaguer : DataType → DataType → Prop
  | unknown (type : DataType) : Vaguer .unknown type
  | same (type : DataType) : Vaguer type type

variable {type type' left left' right right' : DataType}

theorem Vaguer.eq_or (h : Vaguer type' type) : type' = .unknown ∨ type' = type := by
  cases h with
  | unknown => exact .inl rfl
  | same => exact .inr rfl

theorem accepts_of_vaguer {expected : List DataType} (h : Vaguer type' type)
    (haccepts : type.accepts expected = true) : type'.accepts expected = true := by
  cases h with
  | unknown => rfl
  | same => exact haccepts

theorem conflicts_of_vaguer (hl : Vaguer left' left) (hr : Vaguer right' right)
    (hconflicts : left.conflicts right = false) : left'.conflicts right' = false := by
  cases hl with
  | unknown => rfl
  | same =>
    cases hr with
    | unknown => simp [conflicts]
    | same => exact hconflicts

end DataType

open DataType (accepts_of_vaguer conflicts_of_vaguer)

/-- Whether entries with the same keys in the same order have vaguer types. -/
def VaguerEntries {κ : Type} : List (κ × DataType) → List (κ × DataType) → Prop :=
  List.Forall₂ fun e' e => e'.1 = e.1 ∧ e'.2.Vaguer e.2

namespace VaguerEntries

variable {κ : Type} {es' es : List (κ × DataType)}

theorem map_fst (h : VaguerEntries es' es) : es'.map (·.1) = es.map (·.1) := by
  induction h with
  | nil => rfl
  | cons he _ ih => rw [List.map_cons, List.map_cons, he.1, ih]

theorem lookup [BEq κ] (h : VaguerEntries es' es) (key : κ) :
    ((es'.lookup key).getD .unknown).Vaguer ((es.lookup key).getD .unknown) := by
  induction h with
  | nil => exact .unknown _
  | @cons e' e rest' rest he _ ih =>
    obtain ⟨k', t'⟩ := e'
    obtain ⟨k, t⟩ := e
    obtain ⟨rfl, ht⟩ : k' = k ∧ t'.Vaguer t := he
    rw [List.lookup_cons, List.lookup_cons]
    cases key == k' with
    | true => exact ht
    | false => exact ih

theorem lastRecord {es' es : List (String × DataType)} (h : VaguerEntries es' es) (id : String) :
    ((lastRecord? es' id).getD .unknown).Vaguer ((lastRecord? es id).getD .unknown) :=
  lookup (List.forall₂_reverse_iff.mpr h) id

theorem append {fs' fs : List (κ × DataType)} (he : VaguerEntries es' es)
    (hf : VaguerEntries fs' fs) : VaguerEntries (es' ++ fs') (es ++ fs) :=
  List.rel_append he hf

/-- Entries made from the same keys are vaguer if each of them is. -/
theorem of_keys {f' f : κ → DataType} (h : ∀ key, (f' key).Vaguer (f key)) (keys : List κ) :
    VaguerEntries (keys.map fun key => (key, f' key)) (keys.map fun key => (key, f key)) := by
  rw [VaguerEntries, List.forall₂_map_left_iff, List.forall₂_map_right_iff]
  exact List.forall₂_same.mpr fun key _ => ⟨rfl, h key⟩

end VaguerEntries

/-! ### The typing rules -/

theorem operandMismatches_vaguer {family : Operator.Family} {symbol : String} {side : Side}
    {actual' actual : DataType} {id : String} (h : actual'.Vaguer actual)
    (hnil : operandMismatches family symbol side actual id = []) :
    operandMismatches family symbol side actual' id = [] := by
  unfold operandMismatches at hnil ⊢
  split at hnil
  · next haccepts => rw [if_pos (accepts_of_vaguer h haccepts)]
  · cases hnil

/-- Nothing is wrong with vaguer operands, and the operator has the same type. -/
theorem operatorTyping_vaguer {symbol : Option String} {left' left right' right : DataType}
    {id : String} (hl : left'.Vaguer left) (hr : right'.Vaguer right)
    (hnil : (operatorTyping symbol left right id).2 = []) :
    operatorTyping symbol left' right' id = operatorTyping symbol left right id := by
  unfold operatorTyping at hnil ⊢
  cases symbol with
  | none => cases hnil
  | some symbol =>
    cases hfamily : Operator.family? symbol with
    | none =>
      simp only [hfamily] at hnil
      cases hnil
    | some family =>
      simp only [hfamily, operatorMismatches, List.append_eq_nil_iff] at hnil ⊢
      obtain ⟨⟨hleft, hright⟩, hconflict⟩ := hnil
      have hboth : (family.compares && left'.conflicts right') = false := by
        by_cases hcompares : family.compares = true
        · rw [hcompares, Bool.true_and] at hconflict ⊢
          refine conflicts_of_vaguer hl hr ?_
          by_contra hfalse
          rw [if_pos (by simpa using hfalse)] at hconflict
          cases hconflict
        · simp [hcompares]
      rw [operandMismatches_vaguer hl hleft, operandMismatches_vaguer hr hright, hboth, hleft, hright,
        hconflict]
      rfl

theorem argumentMismatches_vaguer {name : String} {expected : DataType} {id : Option String}
    {types' types : List DataType} (h : List.Forall₂ DataType.Vaguer types' types) :
    ∀ {place : Nat}, argumentMismatches name expected id place types = [] →
      argumentMismatches name expected id place types' = [] := by
  induction h with
  | nil => exact fun hnil => hnil
  | cons ht _ ih =>
    intro place hnil
    rw [argumentMismatches, List.append_eq_nil_iff] at hnil ⊢
    refine ⟨?_, ih hnil.2⟩
    have hfirst := hnil.1
    split at hfirst
    · next haccepts => rw [if_pos (accepts_of_vaguer ht haccepts)]
    · cases hfirst

theorem getD_vaguer {types' types : List DataType} (h : List.Forall₂ DataType.Vaguer types' types) :
    ∀ place : Nat, (types'.getD place .unknown).Vaguer (types.getD place .unknown) := by
  induction h with
  | nil => exact fun place => .unknown _
  | cons ht _ ih =>
    intro place
    cases place with
    | zero => exact ht
    | succ place => exact ih place

/-- The type of branches that do not conflict is vaguer even where it comes from the other branch. -/
theorem branches_vaguer {whenTrue' whenTrue whenFalse' whenFalse : DataType}
    (htrue : whenTrue'.Vaguer whenTrue) (hfalse : whenFalse'.Vaguer whenFalse)
    (hconflicts : whenTrue.conflicts whenFalse = false) :
    (if whenTrue' = .unknown then whenFalse' else whenTrue').Vaguer
      (if whenTrue = .unknown then whenFalse else whenTrue) := by
  rcases htrue.eq_or with ht | ht
  · rcases hfalse.eq_or with hf | hf
    · rw [if_pos ht, hf]
      exact .unknown _
    · rw [if_pos ht, hf]
      by_cases hunknown : whenTrue = .unknown
      · rw [if_pos hunknown]
        exact .same _
      · rw [if_neg hunknown]
        by_cases hother : whenFalse = .unknown
        · rw [hother]
          exact .unknown _
        · -- Two branches that are known do not conflict only if they have one type.
          have heq : whenTrue = whenFalse := by
            simpa [DataType.conflicts, hunknown, hother] using hconflicts
          rw [heq]
          exact .same _
  · rw [ht]
    split
    · exact hfalse
    · exact .same _

theorem conditionalTyping_vaguer {name : String} {types' types : List DataType} {id : Option String}
    (h : List.Forall₂ DataType.Vaguer types' types)
    (hnil : (conditionalTyping name types id).2 = []) :
    (conditionalTyping name types' id).2 = [] ∧
      (conditionalTyping name types' id).1.Vaguer (conditionalTyping name types id).1 := by
  obtain ⟨hcondition, hbranches⟩ := List.append_eq_nil_iff.mp hnil
  have haccepts : (types.getD 0 .unknown).accepts [.boolean] = true := by
    by_contra hnot
    rw [if_neg hnot] at hcondition
    cases hcondition
  have hconflicts : (types.getD 1 .unknown).conflicts (types.getD 2 .unknown) = false := by
    by_contra hnot
    rw [if_pos (by simpa using hnot)] at hbranches
    cases hbranches
  refine ⟨List.append_eq_nil_iff.mpr ⟨?_, ?_⟩, ?_⟩
  · exact if_pos (accepts_of_vaguer (getD_vaguer h 0) haccepts)
  · exact if_neg (by
      rw [conflicts_of_vaguer (getD_vaguer h 1) (getD_vaguer h 2) hconflicts]
      exact Bool.false_ne_true)
  · exact branches_vaguer (getD_vaguer h 1) (getD_vaguer h 2) hconflicts

/-- **Nothing is wrong with vaguer arguments, and the type of the call is vaguer.** -/
theorem functionTyping_vaguer {signature : Signature} {types' types : List DataType}
    {id : Option String} (h : List.Forall₂ DataType.Vaguer types' types)
    (hnil : (functionTyping signature types id).2 = []) :
    (functionTyping signature types' id).2 = [] ∧
      (functionTyping signature types' id).1.Vaguer (functionTyping signature types id).1 := by
  unfold functionTyping at hnil ⊢
  cases hrule : signature.rule with
  | numeric =>
    simp only [hrule] at hnil ⊢
    exact ⟨argumentMismatches_vaguer h hnil, .same _⟩
  | allBoolean =>
    simp only [hrule] at hnil ⊢
    exact ⟨argumentMismatches_vaguer h hnil, .same _⟩
  | negation =>
    simp only [hrule] at hnil ⊢
    refine ⟨?_, .same _⟩
    cases h with
    | nil => rfl
    | cons ht _ =>
      simp only at hnil ⊢
      split at hnil
      · next haccepts => rw [if_pos (accepts_of_vaguer ht haccepts)]
      · cases hnil
  | nullCheck => exact ⟨rfl, .same _⟩
  | conditional =>
    simp only [hrule] at hnil ⊢
    exact conditionalTyping_vaguer h hnil

/-! ### Findings -/

namespace Typed

/-- Whether nothing is found wrong, and the types that are found are vaguer than those of another
finding. -/
structure Vaguer (t' t : Typed) : Prop where
  issues : t'.issues = []
  type : t'.type.Vaguer t.type
  records : VaguerEntries t'.records t.records

/-- Whether findings about the same nodes are vaguer. -/
def VaguerFindings : List (Node × Typed) → List (Node × Typed) → Prop :=
  List.Forall₂ fun o' o => o'.1 = o.1 ∧ o'.2.Vaguer o.2

theorem Vaguer.recordAs {t' t : Typed} (h : t'.Vaguer t) (id : String) :
    (t'.recordAs id).Vaguer (t.recordAs id) where
  issues := h.issues
  type := h.type
  records := h.records.append (.cons ⟨rfl, h.type⟩ .nil)

namespace VaguerFindings

variable {os' os : List (Node × Typed)}

theorem issues (h : VaguerFindings os' os) : os'.flatMap (·.2.issues) = [] := by
  induction h with
  | nil => rfl
  | cons ho _ ih => rw [List.flatMap_cons, ho.2.issues, ih, List.append_nil]

theorem records (h : VaguerFindings os' os) :
    VaguerEntries (os'.flatMap (·.2.records)) (os.flatMap (·.2.records)) := by
  induction h with
  | nil => exact .nil
  | cons ho _ ih =>
    rw [List.flatMap_cons, List.flatMap_cons]
    exact ho.2.records.append ih

/-- The types that are found, under keys that depend on the nodes alone, are vaguer. -/
theorem types {κ : Type} (h : VaguerFindings os' os) (key : Node → κ) :
    VaguerEntries (os'.map fun (node, t) => (key node, t.type))
      (os.map fun (node, t) => (key node, t.type)) := by
  induction h with
  | nil => exact .nil
  | cons ho _ ih => exact .cons ⟨congrArg key ho.1, ho.2.type⟩ ih

end VaguerFindings

variable {types' types : List (String × DataType)}

theorem besideOperator_vaguer (h : VaguerEntries types' types) (neighbour : Option Node) :
    (besideOperator types' neighbour).Vaguer (besideOperator types neighbour) := by
  cases neighbour with
  | none => exact .unknown _
  | some node =>
    by_cases hnode : node.isOperand = true
    · rw [besideOperator, besideOperator, if_pos hnode, if_pos hnode]
      exact h.lastRecord node.id
    · rw [besideOperator, besideOperator, if_neg hnode, if_neg hnode]
      exact .unknown _

/-- **Operators in a row pass vaguer types on.** -/
theorem foldOperators_vaguer (h : VaguerEntries types' types) : ∀ (nodes : List Node)
    {previous : Option Node} {sofar' sofar : Option DataType},
    Option.Rel DataType.Vaguer sofar' sofar →
    (foldOperators types previous sofar nodes).2.1 = [] →
      (foldOperators types' previous sofar' nodes).2.1 = [] ∧
        Option.Rel DataType.Vaguer (foldOperators types' previous sofar' nodes).1
          (foldOperators types previous sofar nodes).1 ∧
        VaguerEntries (foldOperators types' previous sofar' nodes).2.2
          (foldOperators types previous sofar nodes).2.2
  | [], _, _, _, hsofar, _ => ⟨rfl, hsofar, .nil⟩
  | node :: rest, previous, sofar', sofar, hsofar, hnil => by
    unfold foldOperators at hnil ⊢
    by_cases hkind : node.kind = .operator
    · simp only [if_pos hkind, List.append_eq_nil_iff] at hnil ⊢
      have hleft : (sofar'.getD (besideOperator types' previous)).Vaguer
          (sofar.getD (besideOperator types previous)) := by
        cases hsofar with
        | none => exact besideOperator_vaguer h previous
        | some ht => exact ht
      have htyping := operatorTyping_vaguer hleft (besideOperator_vaguer h rest.head?) hnil.1
      rw [htyping]
      obtain ⟨hissues, hlast, hrecords⟩ :=
        foldOperators_vaguer h rest (.some (.same _)) hnil.2
      exact ⟨⟨hnil.1, hissues⟩, hlast, .cons ⟨rfl, .same _⟩ hrecords⟩
    · simp only [if_neg hkind] at hnil ⊢
      exact foldOperators_vaguer h rest hsofar hnil

theorem sequence_vaguer {nodes : List Node} {os' os : List (Node × Typed)} (h : VaguerFindings os' os)
    (hnil : (sequence nodes os).issues = []) : (sequence nodes os').Vaguer (sequence nodes os) := by
  have htypes := h.types (·.id)
  unfold sequence at hnil ⊢
  simp only [List.append_eq_nil_iff] at hnil
  obtain ⟨⟨hcheck, -⟩, hfold⟩ := hnil
  obtain ⟨hissues, hlast, hrecords⟩ := foldOperators_vaguer htypes nodes .none hfold
  refine ⟨?_, ?_, h.records.append hrecords⟩
  · simp only [hcheck, h.issues, hissues]
    rfl
  · simp only
    generalize (foldOperators _ none none nodes).1 = last' at hlast ⊢
    generalize (foldOperators _ none none nodes).1 = last at hlast ⊢
    cases hlast with
    | some ht => exact ht
    | none =>
      rcases nodes with _ | ⟨node, _ | ⟨next, rest⟩⟩
      · exact .unknown _
      · exact besideOperator_vaguer htypes (some node)
      · exact .unknown _

theorem argumentTypes_vaguer {signature : Signature} {slots' slots : List (Int × DataType)}
    (h : VaguerEntries slots' slots) :
    List.Forall₂ DataType.Vaguer (argumentTypes signature slots') (argumentTypes signature slots) := by
  unfold argumentTypes
  split
  · rw [h.map_fst, List.forall₂_map_left_iff, List.forall₂_map_right_iff]
    exact List.forall₂_same.mpr fun slot _ => h.lookup slot
  · rw [List.forall₂_map_left_iff, List.forall₂_map_right_iff]
    exact List.forall₂_same.mpr fun slot _ => h.lookup _

theorem call_vaguer {node : Node} {os' os : List (Node × Typed)} (h : VaguerFindings os' os)
    (hnil : (call node os).issues = []) : (call node os').Vaguer (call node os) := by
  unfold call at hnil ⊢
  cases hsignature : node.function.bind Signature.find? with
  | none =>
    simp only [hsignature, List.append_eq_nil_iff] at hnil
    cases hnil.2
  | some signature =>
    simp only [hsignature, List.append_eq_nil_iff] at hnil ⊢
    obtain ⟨hissues, htype⟩ :=
      functionTyping_vaguer (argumentTypes_vaguer (h.types (·.slot.getD 0))) hnil.2
    exact ⟨by rw [h.issues, hissues, List.append_nil], htype, h.records⟩

end Typed

/-! ### Catalogs -/

/-- Whether a catalog has the entries of another, with vaguer declared types. -/
def Catalog.Vaguer : Catalog → Catalog → Prop :=
  List.Forall₂ fun a' a => a'.id = a.id ∧ a'.name = a.name ∧
    (DataType.ofDeclared a'.declared).Vaguer (DataType.ofDeclared a.declared)

variable {catalog' catalog : Catalog}

/-- What is found under an identifier is the same entry, with a vaguer declared type. -/
theorem Catalog.Vaguer.lookup (h : catalog'.Vaguer catalog) (id : String) :
    Option.Rel (fun a' a => (DataType.ofDeclared a'.declared).Vaguer (.ofDeclared a.declared))
      (catalog'.lookup? id) (catalog.lookup? id) := by
  unfold Catalog.lookup?
  induction h with
  | nil => exact .none
  | @cons a' a _ _ ha _ ih =>
    rw [List.find?_cons, List.find?_cons, ha.1]
    cases decide (a.id = id) with
    | true => exact .some ha.2.2
    | false => exact ih

theorem Typed.reference_vaguer (h : catalog'.Vaguer catalog) {node : Node}
    (hnil : (Typed.reference catalog node).issues = []) :
    (Typed.reference catalog' node).Vaguer (Typed.reference catalog node) := by
  unfold Typed.reference at hnil ⊢
  cases hid : node.reference with
  | none =>
    simp only [hid] at hnil
    cases hnil
  | some id =>
    simp only [hid] at hnil ⊢
    by_cases hempty : id = ""
    · rw [if_pos hempty] at hnil
      cases hnil
    · rw [if_neg hempty] at hnil ⊢
      rw [if_neg hempty]
      have hlookup := h.lookup id
      cases hfound : catalog.lookup? id with
      | none =>
        rw [hfound] at hnil
        cases hnil
      | some found =>
        rw [hfound] at hlookup
        generalize catalog'.lookup? id = other at hlookup
        cases hlookup with
        | some ht => exact ⟨rfl, ht, .nil⟩

/-! ### Trees -/

namespace Tree

mutual

/-- If nothing is wrong with a tree, then nothing is under a vaguer catalog, and the types are vaguer. -/
theorem infer_vaguer (h : catalog'.Vaguer catalog) : ∀ {t : Tree}, (infer catalog t).issues = [] →
    (infer catalog' t).Vaguer (infer catalog t)
  | mk node children, hnil => by
    unfold infer at hnil ⊢
    refine Typed.Vaguer.recordAs ?_ node.id
    rw [Typed.recordAs] at hnil
    cases hkind : node.kind with
    | value => exact ⟨rfl, .same _, .nil⟩
    | reference =>
      simp only [hkind] at hnil ⊢
      exact Typed.reference_vaguer h hnil
    | function =>
      simp only [hkind] at hnil ⊢
      refine Typed.call_vaguer (inferArguments_vaguer h ?_) hnil
      unfold Typed.call at hnil
      split at hnil
      · exact (List.append_eq_nil_iff.mp hnil).1
      · exact (List.append_eq_nil_iff.mp hnil).1
    | group =>
      simp only [hkind] at hnil ⊢
      by_cases hempty : children.isEmpty = true
      · rw [if_pos hempty] at hnil
        cases hnil
      · rw [if_neg hempty] at hnil ⊢
        rw [if_neg hempty]
        exact sequence_vaguer h hnil
    | operator => exact ⟨rfl, .same _, .nil⟩

theorem sequence_vaguer (h : catalog'.Vaguer catalog) : ∀ {ts : List Tree},
    (Typed.sequence (ts.map node) (inferOperands catalog ts)).issues = [] →
    (Typed.sequence (ts.map node) (inferOperands catalog' ts)).Vaguer
      (Typed.sequence (ts.map node) (inferOperands catalog ts))
  | ts, hnil => by
    refine Typed.sequence_vaguer (inferOperands_vaguer h ?_) hnil
    exact (List.append_eq_nil_iff.mp (List.append_eq_nil_iff.mp hnil).1).2

theorem inferOperands_vaguer (h : catalog'.Vaguer catalog) : ∀ {ts : List Tree},
    (inferOperands catalog ts).flatMap (·.2.issues) = [] →
    Typed.VaguerFindings (inferOperands catalog' ts) (inferOperands catalog ts)
  | [], _ => .nil
  | t :: rest, hnil => by
    unfold inferOperands at hnil ⊢
    by_cases hoperand : t.node.isOperand = true
    · rw [if_pos hoperand, List.flatMap_cons, List.append_eq_nil_iff] at hnil
      rw [if_pos hoperand, if_pos hoperand]
      exact .cons ⟨rfl, infer_vaguer h hnil.1⟩ (inferOperands_vaguer h hnil.2)
    · rw [if_neg hoperand] at hnil
      rw [if_neg hoperand, if_neg hoperand]
      exact inferOperands_vaguer h hnil

theorem inferArguments_vaguer (h : catalog'.Vaguer catalog) : ∀ {ts : List Tree},
    (inferArguments catalog ts).flatMap (·.2.issues) = [] →
    Typed.VaguerFindings (inferArguments catalog' ts) (inferArguments catalog ts)
  | [], _ => .nil
  | mk group children :: rest, hnil => by
    unfold inferArguments at hnil ⊢
    rw [List.flatMap_cons, List.append_eq_nil_iff] at hnil
    exact .cons ⟨rfl, (sequence_vaguer h hnil.1).recordAs group.id⟩ (inferArguments_vaguer h hnil.2)

end

end Tree

/-- **Under a catalog with vaguer types nothing is wrong that was not before, and all types are
vaguer**, if nothing was wrong. -/
theorem Store.inferTypes_vaguer (store : Store) (h : catalog'.Vaguer catalog)
    (hnil : (store.inferTypes catalog).issues = []) :
    (store.inferTypes catalog').issues = [] ∧
      (store.inferTypes catalog').type.Vaguer (store.inferTypes catalog).type ∧
      VaguerEntries (store.inferTypes catalog').types (store.inferTypes catalog).types := by
  have hforest : (Tree.inferSequence catalog' store.forest).Vaguer
      (Tree.inferSequence catalog store.forest) := Tree.sequence_vaguer h hnil
  exact ⟨hforest.issues, hforest.type, .of_keys (fun id => hforest.records.lastRecord id) _⟩

/-- A conditional between a reference and a value. -/
def Store.choice : Store :=
  ⟨[.ofFunction "if" none (some "IF"), .ofGroup "condition" (some "if") (some 0),
    .ofReference "x" (some "condition") (some "a"), .ofGroup "true" (some "if") (some 1),
    .ofReference "y" (some "true") (some "b"), .ofGroup "false" (some "if") (some 2),
    .ofValue "one" (some "false") (some (.integer 1))]⟩

/-- Without the declared types the conditional is a number as before, now because of its other branch. -/
theorem Store.inferTypes_choice :
    Catalog.Vaguer [⟨"a", "A", none⟩, ⟨"b", "B", none⟩]
        [⟨"a", "A", some "boolean"⟩, ⟨"b", "B", some "number"⟩] ∧
      (choice.inferTypes [⟨"a", "A", none⟩, ⟨"b", "B", none⟩]).issues = [] ∧
      (choice.inferTypes [⟨"a", "A", none⟩, ⟨"b", "B", none⟩]).type = .number := by
  have hvaguer : Catalog.Vaguer [⟨"a", "A", none⟩, ⟨"b", "B", none⟩]
      [⟨"a", "A", some "boolean"⟩, ⟨"b", "B", some "number"⟩] :=
    .cons ⟨rfl, rfl, .unknown _⟩ (.cons ⟨rfl, rfl, .unknown _⟩ .nil)
  obtain ⟨hissues, -, -⟩ := inferTypes_vaguer choice hvaguer (by decide)
  exact ⟨hvaguer, hissues, by decide⟩

end Formulary
