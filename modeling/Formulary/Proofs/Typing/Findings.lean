/-
# The findings of a type report

The issues of a type report are those of each sequence and each node by itself, every one of them once
(`Store.Intact.issues_inferTypes_perm`): what is wrong with the alternation in each sequence, the empty
groups, the names that are not known, and the operands and arguments that do not fit. The last two are
judged by the types that the report has for the nodes, so that no node is judged by a type that it does
not have in the end.

Key definitions: `sequenceFindings`, `argumentFindings`, `contentIssues`.
Key theorems: `Typed.issues_foldOperators`, `Tree.issues_infer`,
`Store.Intact.issues_inferTypes_perm`.
-/
import Formulary.Proofs.Structure.Slots
import Formulary.Proofs.Typing.Records

namespace Formulary

open Store (operatorIssues referenceIssues)

/-! ### Findings about a node -/

section Findings

variable (type : String → DataType)

/-- The type of an operand next to an operator, unknown if there is none. -/
def typeBeside : Option Node → DataType
  | some node => if node.isOperand then type node.id else .unknown
  | none => .unknown

/-- The type that an operator has on its left, given the nodes before it, nearest first: that of the
last operator, or if there is none that of the operand beside it. -/
def typeBefore (before : List Node) : DataType :=
  match before.find? (·.kind = .operator) with
  | some operator => type operator.id
  | none => typeBeside type before.head?

/-- What is wrong with the operands of a known operator between the nodes `before`, nearest first, and
the nodes `behind` it. -/
def operandFindings (before : List Node) (node : Node) (behind : List Node) : List Issue :=
  match node.operator with
  | none => []
  | some symbol =>
    match Operator.family? symbol with
    | none => []
    | some family =>
      operatorMismatches family symbol (typeBefore type before) (typeBeside type behind.head?) node.id

/-- What is wrong with the operands of the operators in a sequence behind the nodes `before`, nearest
first. -/
def sequenceFindings : List Node → List Node → List Issue
  | _, [] => []
  | before, node :: rest =>
    (if node.kind = .operator then operandFindings type before node rest else []) ++
      sequenceFindings (node :: before) rest

/-- The types of argument groups: of all in their order, or of one for each slot from zero on, unknown
for a slot without a group. -/
def typesOf (arity : Arity) (groups : List Node) : List DataType :=
  match arity with
  | .variadic => groups.map fun group => type group.id
  | .exactly count =>
    (List.range count).map fun slot : Nat =>
      ((groups.find? (·.slot = some (slot : Int))).map fun group => type group.id).getD .unknown

/-- What is wrong with the arguments of a known function, given its argument groups. -/
def argumentFindings (node : Node) (groups : List Node) : List Issue :=
  match node.function.bind Signature.find? with
  | none => []
  | some signature =>
    (functionTyping signature (typesOf type signature.arity groups) (some node.id)).2

end Findings

/-- What is wrong with the name of a function. -/
def calleeIssues (node : Node) : List Issue :=
  if node.kind = .function ∧ (node.function.bind Signature.find?).isNone then
    [.unknownFunction node.function node.id]
  else []

/-- What is wrong with a node by what it holds. -/
def contentIssues (catalog : Catalog) (node : Node) : List Issue :=
  operatorIssues node ++ referenceIssues (some catalog) node ++ calleeIssues node

/-- What is wrong with a plain group that has no children. -/
def emptyIssues (node : Node) (below : List Node) : List Issue :=
  if node.kind = .group ∧ node.slot = none ∧ below = [] then [.emptyGroup node.id] else []

/-- What is wrong with a node and with what is right below it. -/
def nodeFindings (catalog : Catalog) (type : String → DataType) (node : Node) (below : List Node) :
    List Issue :=
  contentIssues catalog node ++ emptyIssues node below ++
    (if node.kind = .group then checkSequence below ++ sequenceFindings type [] below else []) ++
    if node.kind = .function then argumentFindings type node below else []

/-! ### Sequences -/

namespace Typed

variable {type : String → DataType} {types : List (String × DataType)}

/-- The issues of an operator are that it is unknown, or those of its operands. -/
theorem issues_operatorTyping {node : Node} (hkind : node.kind = .operator) (before behind : List Node) :
    (operatorTyping node.operator (typeBefore type before) (typeBeside type behind.head?) node.id).2 =
      operatorIssues node ++ operandFindings type before node behind := by
  have hempty : isOperator "" = false := by decide
  unfold operatorTyping operatorIssues operandFindings
  cases node.operator with
  | none => simp [hkind, hempty]
  | some symbol =>
    cases hfamily : Operator.family? symbol with
    | none => simp [hkind, hfamily, isOperator]
    | some family => simp [hfamily, isOperator]

theorem operatorIssues_of_ne {node : Node} (hkind : node.kind ≠ .operator) : operatorIssues node = [] := by
  simp [operatorIssues, hkind]

theorem foldOperators_operator {node : Node} (hkind : node.kind = .operator) {type : DataType}
    {issues : List Issue} {previous : Option Node} {sofar : Option DataType} {rest : List Node}
    (h : operatorTyping node.operator (sofar.getD (besideOperator types previous))
      (besideOperator types rest.head?) node.id = (type, issues)) :
    foldOperators types previous sofar (node :: rest) =
      ((foldOperators types (some node) (some type) rest).1,
        issues ++ (foldOperators types (some node) (some type) rest).2.1,
        (node.id, type) :: (foldOperators types (some node) (some type) rest).2.2) := by
  rw [foldOperators]
  simp only [if_pos hkind, h]

/-- What an operator takes from its left is what `foldOperators` passes on to it. -/
theorem typeBefore_eq {before : List Node}
    (h : ∀ node ∈ before, besideOperator types (some node) = typeBeside type (some node)) :
    ((before.find? (·.kind = .operator)).map fun operator => type operator.id).getD
      (besideOperator types before.head?) = typeBefore type before := by
  unfold typeBefore
  cases before.find? (·.kind = .operator) with
  | some operator => rfl
  | none =>
    cases before with
    | nil => rfl
    | cons node rest => exact h node List.mem_cons_self

/-- **The issues of the operators in a sequence**, if the types of its nodes are those that are
recorded. -/
theorem issues_foldOperators : ∀ {nodes before : List Node},
    (∀ node, node ∈ before ∨ node ∈ nodes →
      besideOperator types (some node) = typeBeside type (some node)) →
    Agrees type (foldOperators types before.head?
      ((before.find? (·.kind = .operator)).map fun operator => type operator.id) nodes).2.2 →
    (foldOperators types before.head?
      ((before.find? (·.kind = .operator)).map fun operator => type operator.id) nodes).2.1.Perm
      (sequenceFindings type before nodes ++ nodes.flatMap operatorIssues)
  | [], _, _, _ => .nil
  | node :: rest, before, hbeside, hagrees => by
    have hrest : ∀ n, n ∈ node :: before ∨ n ∈ rest →
        besideOperator types (some n) = typeBeside type (some n) := by
      intro n hn
      refine hbeside n ?_
      rw [List.mem_cons] at hn ⊢
      tauto
    have ih := issues_foldOperators hrest
    rw [sequenceFindings, List.flatMap_cons]
    rw [List.find?_cons, List.head?_cons] at ih
    by_cases hkind : node.kind = .operator
    · have hright : besideOperator types rest.head? = typeBeside type rest.head? := by
        cases rest with
        | nil => rfl
        | cons next _ => exact hbeside next (.inr (List.mem_cons_of_mem _ List.mem_cons_self))
      obtain ⟨result, issues, htyping⟩ : ∃ result issues, operatorTyping node.operator
          (typeBefore type before) (typeBeside type rest.head?) node.id = (result, issues) :=
        ⟨_, _, rfl⟩
      have hissues := @issues_operatorTyping type node hkind before rest
      rw [htyping] at hissues
      rw [← typeBefore_eq fun n hn => hbeside n (.inl hn), ← hright] at htyping
      rw [foldOperators_operator hkind htyping] at hagrees ⊢
      -- The type of the operator is recorded, and the rest of the sequence goes on with it.
      have htype : type node.id = result := hagrees _ List.mem_cons_self
      simp only [hkind, decide_true, Option.map_some, htype] at ih
      have hperm := ih fun e he => hagrees e (List.mem_cons_of_mem _ he)
      rw [if_pos hkind]
      refine List.perm_iff_count.mpr fun issue => ?_
      have hcount := hperm.count_eq issue
      have hown := congrArg (List.count issue) hissues
      simp only [List.count_append] at hcount hown ⊢
      omega
    · rw [foldOperators, if_neg hkind] at hagrees ⊢
      simp only [hkind, decide_false] at ih
      rw [if_neg hkind, operatorIssues_of_ne hkind, List.nil_append, List.nil_append]
      exact ih hagrees

/-- The issues of a sequence. -/
theorem issues_sequence {nodes : List Node} {operands : List (Node × Typed)}
    (hbeside : ∀ node ∈ nodes,
      besideOperator (operands.map fun (node, t) => (node.id, t.type)) (some node) =
        typeBeside type (some node))
    (hagrees : Agrees type (sequence nodes operands).records) :
    (sequence nodes operands).issues.Perm (checkSequence nodes ++ operands.flatMap (·.2.issues) ++
      (sequenceFindings type [] nodes ++ nodes.flatMap operatorIssues)) := by
  unfold sequence at hagrees ⊢
  obtain ⟨-, hfold⟩ := Agrees.append_iff.mp hagrees
  have hnodes : ∀ node, node ∈ [] ∨ node ∈ nodes → _ := fun node hnode =>
    hbeside node (hnode.resolve_left List.not_mem_nil)
  exact (issues_foldOperators hnodes hfold).append_left _

end Typed

/-! ### Calls -/

theorem typeOf_slot {type : String → DataType} {groups : List Node}
    (harguments : ∀ group ∈ groups, group.isArgument = true) (slot : Int) :
    (groups.map fun group => (group.slot.getD 0, type group.id)).lookup slot =
      (groups.find? (·.slot = some slot)).map fun group => type group.id := by
  induction groups with
  | nil => rfl
  | cons group rest ih =>
    obtain ⟨-, own, hown⟩ := Node.isArgument_iff.mp (harguments group List.mem_cons_self)
    rw [List.map_cons, List.lookup_cons, List.find?_cons, hown, Option.getD_some]
    by_cases heq : slot = own
    · rw [heq, beq_self_eq_true, decide_eq_true rfl]
      rfl
    · have hne : ¬some own = some slot := fun h => heq (Option.some.inj h).symm
      rw [beq_false_of_ne heq, decide_eq_false hne]
      exact ih fun g hg => harguments g (List.mem_cons_of_mem _ hg)

/-- The types of arguments in different slots are those that count for the call. -/
theorem argumentTypes_eq {type : String → DataType} {signature : Signature} {groups : List Node}
    (harguments : ∀ group ∈ groups, group.isArgument = true)
    (hslots : (groups.map (·.slot)).Nodup) :
    Typed.argumentTypes signature (groups.map fun group => (group.slot.getD 0, type group.id)) =
      typesOf type signature.arity groups := by
  have hkeys : (groups.map fun group => group.slot.getD 0).Nodup := by
    refine List.Nodup.of_map (some : Int → Option Int) ?_
    rw [List.map_map]
    have hsome : groups.map (some ∘ fun group => group.slot.getD 0) = groups.map (·.slot) := by
      refine List.map_congr_left fun group hgroup => ?_
      obtain ⟨-, slot, hslot⟩ := Node.isArgument_iff.mp (harguments group hgroup)
      simp [hslot]
    rw [hsome]
    exact hslots
  unfold Typed.argumentTypes typesOf
  cases signature.arity with
  | variadic =>
    simp only [List.map_map]
    have hfst : ((fun e : Int × DataType => e.1) ∘
        fun group : Node => (group.slot.getD 0, type group.id)) = fun group => group.slot.getD 0 := rfl
    rw [hfst, eraseDups_of_nodup hkeys, List.map_map]
    refine List.map_congr_left fun group hgroup => ?_
    have hmem : (group.slot.getD 0, type group.id) ∈
        groups.map fun group => (group.slot.getD 0, type group.id) :=
      List.mem_map.mpr ⟨group, hgroup, rfl⟩
    have hlookup := lookup_of_mem (by rw [List.map_map]; exact hkeys) hmem
    exact congrArg (·.getD .unknown) hlookup
  | exactly count =>
    exact List.map_congr_left fun slot _ =>
      congrArg (·.getD .unknown) (typeOf_slot harguments (slot : Int))

/-! ### Trees -/

section Nodes

variable {catalog : Catalog} {type : String → DataType} {node : Node} {below : List Node}

theorem nodeFindings_leaf (hkind : node.kind.isLeaf = true) :
    nodeFindings catalog type node below =
      operatorIssues node ++ referenceIssues (some catalog) node := by
  cases h : node.kind with
  | function => rw [h] at hkind; cases hkind
  | group => rw [h] at hkind; cases hkind
  | _ => simp [nodeFindings, contentIssues, calleeIssues, emptyIssues, h]

theorem nodeFindings_function (hkind : node.kind = .function) :
    nodeFindings catalog type node below = calleeIssues node ++ argumentFindings type node below := by
  simp [nodeFindings, contentIssues, operatorIssues, referenceIssues, emptyIssues, hkind]

theorem nodeFindings_group (hkind : node.kind = .group) :
    nodeFindings catalog type node below =
      emptyIssues node below ++ (checkSequence below ++ sequenceFindings type [] below) := by
  simp [nodeFindings, contentIssues, operatorIssues, referenceIssues, calleeIssues, hkind]

end Nodes

namespace Tree

variable (catalog : Catalog) {type : String → DataType}

/-- What is wrong at the top of a tree. -/
def findings (type : String → DataType) (t : Tree) : List Issue :=
  nodeFindings catalog type t.node (t.children.map node)

theorem map_inferOperands (ts : List Tree) :
    (inferOperands catalog ts).map (·.1) = (ts.map node).filter (·.isOperand) := by
  rw [inferOperands_eq, List.map_map, List.filter_map]
  rfl

theorem map_inferArguments (ts : List Tree) :
    (inferArguments catalog ts).map (·.1) = ts.map node := by
  rw [inferArguments_eq, List.map_map]
  rfl

theorem record_mem_infer (t : Tree) :
    (t.node.id, (infer catalog t).type) ∈ (infer catalog t).records := by
  obtain ⟨node, children⟩ := t
  unfold infer
  exact List.mem_append_right _ (List.mem_singleton_self _)

theorem record_mem_inferOperands {ts : List Tree} : ∀ o ∈ inferOperands catalog ts,
    (o.1.id, o.2.type) ∈ o.2.records := by
  intro o ho
  rw [inferOperands_eq] at ho
  obtain ⟨t, -, rfl⟩ := List.mem_map.mp ho
  exact record_mem_infer catalog t

theorem record_mem_inferArguments {ts : List Tree} : ∀ o ∈ inferArguments catalog ts,
    (o.1.id, o.2.type) ∈ o.2.records := by
  intro o ho
  rw [inferArguments_eq] at ho
  obtain ⟨t, -, rfl⟩ := List.mem_map.mp ho
  exact List.mem_append_right _ (List.mem_singleton_self _)

/-- Operands have the types that are recorded for them. -/
theorem type_of_agrees {os : List (Node × Typed)}
    (hrecord : ∀ o ∈ os, (o.1.id, o.2.type) ∈ o.2.records)
    (hagrees : Agrees type (os.flatMap (·.2.records))) : ∀ o ∈ os, type o.1.id = o.2.type :=
  fun o ho => hagrees _ (List.mem_flatMap.mpr ⟨o, ho, hrecord o ho⟩)

/-- The issues of a sequence of trees are its own and those that are found below it. -/
theorem issues_sequence_of {ts : List Tree}
    (hperm : ((inferOperands catalog ts).flatMap (·.2.issues) ++
      (ts.map node).flatMap operatorIssues).Perm ((subtreesAll ts).flatMap (findings catalog type)))
    (hagrees : Agrees type (Typed.sequence (ts.map node) (inferOperands catalog ts)).records) :
    (Typed.sequence (ts.map node) (inferOperands catalog ts)).issues.Perm
      (checkSequence (ts.map node) ++ sequenceFindings type [] (ts.map node) ++
        (subtreesAll ts).flatMap (findings catalog type)) := by
  have hbeside : ∀ n ∈ ts.map node, Typed.besideOperator
      ((inferOperands catalog ts).map fun (node, t) => (node.id, t.type)) (some n) =
        typeBeside type (some n) := by
    intro n hn
    rw [Typed.besideOperator, typeBeside]
    by_cases hoperand : n.isOperand = true
    · rw [if_pos hoperand, if_pos hoperand]
      have htypes := type_of_agrees (record_mem_inferOperands catalog)
        (Agrees.append_iff.mp hagrees).1
      have hall : Agrees type
          ((inferOperands catalog ts).map fun (node, t) => (node.id, t.type)) := by
        intro e he
        obtain ⟨o, ho, rfl⟩ := List.mem_map.mp he
        exact htypes o ho
      have hid : n.id ∈ keysOf
          ((inferOperands catalog ts).map fun (node, t) => (node.id, t.type)) := by
        have hmem : n ∈ (inferOperands catalog ts).map (·.1) := by
          rw [map_inferOperands]
          exact List.mem_filter.mpr ⟨hn, hoperand⟩
        obtain ⟨o, ho, rfl⟩ := List.mem_map.mp hmem
        exact List.mem_map.mpr ⟨_, List.mem_map_of_mem ho, rfl⟩
      rw [hall.lastRecord hid]
      rfl
    · rw [if_neg hoperand, if_neg hoperand]
  refine List.perm_iff_count.mpr fun issue => ?_
  have hsequence := (Typed.issues_sequence hbeside hagrees).count_eq issue
  have hbelow := hperm.count_eq issue
  simp only [List.count_append] at hsequence hbelow ⊢
  omega

/-- The issues of a call are those of its arguments and its own. -/
theorem issues_call_of {n : Node} {ts : List Tree} (hkind : n.kind = .function)
    (harguments : ∀ t ∈ ts, t.node.isArgument = true) (hslots : (ts.map (·.node.slot)).Nodup)
    (hperm : ((inferArguments catalog ts).flatMap (·.2.issues)).Perm
      ((subtreesAll ts).flatMap (findings catalog type)))
    (hagrees : Agrees type ((inferArguments catalog ts).flatMap (·.2.records))) :
    (Typed.call n (inferArguments catalog ts)).issues.Perm
      (calleeIssues n ++ argumentFindings type n (ts.map node) ++
        (subtreesAll ts).flatMap (findings catalog type)) := by
  have htypes := type_of_agrees (record_mem_inferArguments catalog) hagrees
  have hslotTypes : ((inferArguments catalog ts).map fun (group, t) => (group.slot.getD 0, t.type)) =
      (ts.map node).map fun group => (group.slot.getD 0, type group.id) := by
    rw [← map_inferArguments catalog ts, List.map_map]
    refine List.map_congr_left fun o ho => ?_
    obtain ⟨group, t⟩ := o
    exact congrArg (Prod.mk _) (htypes _ ho).symm
  have hgroups : ∀ group ∈ ts.map node, group.isArgument = true := by
    intro group hgroup
    obtain ⟨t, ht, rfl⟩ := List.mem_map.mp hgroup
    exact harguments t ht
  have hnodup : ((ts.map node).map (·.slot)).Nodup := by
    rw [List.map_map]
    exact hslots
  unfold Typed.call calleeIssues argumentFindings
  cases hsignature : n.function.bind Signature.find? with
  | none =>
    simp only [hkind, Option.isNone_none, and_self, if_true, List.append_nil]
    exact (hperm.append_right _).trans List.perm_append_comm
  | some signature =>
    simp only [Option.isNone_some, Bool.false_eq_true, and_false, if_false, List.nil_append,
      hslotTypes, argumentTypes_eq hgroups hnodup]
    exact (hperm.append_right _).trans List.perm_append_comm

theorem issues_reference (n : Node) (hkind : n.kind = .reference) :
    (Typed.reference catalog n).issues = referenceIssues (some catalog) n := by
  unfold Typed.reference referenceIssues
  rw [if_pos hkind]
  cases n.reference with
  | none => rfl
  | some id =>
    by_cases hempty : id = ""
    · simp [hempty]
    · cases hfound : catalog.lookup? id with
      | none => simp [hempty, hfound]
      | some found => simp [hempty, hfound]

mutual

/-- **What is found wrong with a tree is what is wrong at the top of it and of all trees below.** -/
theorem issues_infer : ∀ {t : Tree}, t.Shaped → ShapedAll t.children → t.node.isArgument = false →
    t.node.isOperand = true → Agrees type (infer catalog t).records →
    (infer catalog t).issues.Perm (t.subtrees.flatMap (findings catalog type))
  | mk node children, hshaped, hall, hargument, hoperand, hagrees => by
    have hleaf : node.kind.isLeaf = true → children = [] := hshaped.leaf
    have hall : ShapedAll children := hall
    unfold infer at hagrees ⊢
    have hagrees := (Agrees.append_iff.mp hagrees).1
    rw [subtrees, List.flatMap_cons, Typed.recordAs]
    show List.Perm _ (nodeFindings catalog type node (children.map Tree.node) ++ _)
    cases hkind : node.kind with
    | operator =>
      have hoperator : node.isOperand = true := hoperand
      rw [Node.isOperand, hkind] at hoperator
      cases hoperator
    | value =>
      rw [hleaf (by rw [hkind]; rfl), nodeFindings_leaf (by rw [hkind]; rfl)]
      simp [operatorIssues, referenceIssues, hkind, subtreesAll]
    | reference =>
      rw [hleaf (by rw [hkind]; rfl), nodeFindings_leaf (by rw [hkind]; rfl)]
      simp only [issues_reference catalog node hkind]
      simp [operatorIssues, hkind, subtreesAll]
    | function =>
      simp only [hkind] at hagrees ⊢
      rw [nodeFindings_function hkind]
      rw [records_call] at hagrees
      have harguments : ∀ t ∈ children, t.node.isArgument = true := hshaped.arguments hkind
      exact issues_call_of catalog hkind harguments (hshaped.slots hkind)
        (issues_inferArguments hall harguments hagrees) hagrees
    | group =>
      simp only [hkind] at hagrees ⊢
      have hplain : ∀ t ∈ children, t.node.isArgument = false := hshaped.operands hkind
      have hslot : node.slot = none := by
        have hnone : node.isArgument = false := hargument
        simpa [Node.isArgument, hkind] using hnone
      have hrecords : Agrees type
          (Typed.sequence (children.map Tree.node) (inferOperands catalog children)).records := by
        by_cases hempty : children.isEmpty = true
        · rw [if_pos hempty] at hagrees
          exact hagrees
        · rw [if_neg hempty] at hagrees
          exact hagrees
      have hbelow := issues_inferOperands hall hplain (Agrees.append_iff.mp hrecords).1
      have hsequence := issues_sequence_of catalog hbelow hrecords
      rw [nodeFindings_group hkind, emptyIssues]
      by_cases hempty : children = []
      · rw [if_pos (by simp [hempty]), if_pos ⟨hkind, hslot, by simp [hempty]⟩]
        exact hsequence.cons _
      · rw [if_neg (by simpa using hempty), if_neg (by simp [hempty])]
        exact hsequence

theorem issues_inferOperands : ∀ {ts : List Tree}, ShapedAll ts →
    (∀ t ∈ ts, t.node.isArgument = false) →
    Agrees type ((inferOperands catalog ts).flatMap (·.2.records)) →
    ((inferOperands catalog ts).flatMap (·.2.issues) ++ (ts.map node).flatMap operatorIssues).Perm
      ((subtreesAll ts).flatMap (findings catalog type))
  | [], _, _, _ => .nil
  | t :: rest, h, hplain, hagrees => by
    obtain ⟨hshaped, hchildren, hrest⟩ := h.cons
    have hargument := hplain t List.mem_cons_self
    have hothers : ∀ u ∈ rest, u.node.isArgument = false :=
      fun u hu => hplain u (List.mem_cons_of_mem _ hu)
    rw [inferOperands] at hagrees ⊢
    rw [subtreesAll, List.map_cons, List.flatMap_cons, List.flatMap_append]
    by_cases hoperand : t.node.isOperand = true
    · have hkind : t.node.kind ≠ .operator := by
        simpa [Node.isOperand, Kind.isOperand] using hoperand
      rw [if_pos hoperand, List.flatMap_cons] at hagrees
      rw [if_pos hoperand, List.flatMap_cons, Typed.operatorIssues_of_ne hkind, List.nil_append,
        List.append_assoc]
      obtain ⟨hfirst, hsecond⟩ := Agrees.append_iff.mp hagrees
      exact (issues_infer hshaped hchildren hargument hoperand hfirst).append
        (issues_inferOperands hrest hothers hsecond)
    · -- An operator has no children, and its issues are those that it has in its sequence.
      have hkind : t.node.kind = .operator := by
        simpa [Node.isOperand, Kind.isOperand] using hoperand
      rw [if_neg hoperand] at hagrees ⊢
      have ih := issues_inferOperands hrest hothers hagrees
      have hnil := hshaped.leaf (by rw [hkind]; rfl)
      have htop : t.subtrees.flatMap (findings catalog type) = operatorIssues t.node := by
        obtain ⟨node, children⟩ := t
        have hchildren : children = [] := hnil
        have hkind : node.kind = .operator := hkind
        rw [hchildren, subtrees, subtreesAll, List.flatMap_cons, List.flatMap_nil, List.append_nil,
          findings]
        refine (nodeFindings_leaf (by rw [Tree.node, hkind]; rfl)).trans ?_
        simp [Tree.node, referenceIssues, hkind]
      rw [htop]
      refine List.perm_iff_count.mpr fun issue => ?_
      have hcount := ih.count_eq issue
      simp only [List.count_append] at hcount ⊢
      omega

theorem issues_inferArguments : ∀ {ts : List Tree}, ShapedAll ts →
    (∀ t ∈ ts, t.node.isArgument = true) →
    Agrees type ((inferArguments catalog ts).flatMap (·.2.records)) →
    ((inferArguments catalog ts).flatMap (·.2.issues)).Perm
      ((subtreesAll ts).flatMap (findings catalog type))
  | [], _, _, _ => .nil
  | mk group children :: rest, h, harguments, hagrees => by
    obtain ⟨hshaped, hchildren, hrest⟩ := h.cons
    have hchildren : ShapedAll children := hchildren
    have hargument : group.isArgument = true := harguments _ List.mem_cons_self
    obtain ⟨hkind, slot, hslot⟩ := Node.isArgument_iff.mp hargument
    have hplain : ∀ t ∈ children, t.node.isArgument = false := hshaped.operands hkind
    rw [inferArguments] at hagrees ⊢
    rw [List.flatMap_cons] at hagrees
    rw [subtreesAll, List.flatMap_cons, List.flatMap_append]
    obtain ⟨hfirst, hsecond⟩ := Agrees.append_iff.mp hagrees
    have hrecords := (Agrees.append_iff.mp hfirst).1
    have hbelow := issues_inferOperands hchildren hplain (Agrees.append_iff.mp hrecords).1
    have hothers := issues_inferArguments hrest
      (fun t ht => harguments t (List.mem_cons_of_mem _ ht)) hsecond
    refine List.Perm.append ?_ hothers
    rw [subtrees, List.flatMap_cons]
    show List.Perm _ (nodeFindings catalog type group (children.map Tree.node) ++ _)
    rw [nodeFindings_group hkind, emptyIssues, if_neg (by simp [hslot])]
    exact issues_sequence_of catalog hbelow hrecords

end

end Tree

namespace Store

open Formulary.Tree

variable {store : Store} (catalog : Catalog) (type : String → DataType)

/-- The issues of a store, given the types of its nodes: what is wrong with the alternation in each
sequence, with the plain groups that have no children, with what the nodes hold, with the operands of
each operator, and with the arguments of each function. -/
def findings (store : Store) : List Issue :=
  store.sequences.flatMap checkSequence ++
    store.nodes.flatMap (fun node => emptyIssues node (store.childrenOf node.id)) ++
    store.nodes.flatMap (contentIssues catalog) ++
    store.sequences.flatMap (sequenceFindings type []) ++
    (store.nodes.filter (·.kind = .function)).flatMap fun node =>
      argumentFindings type node (store.argumentsOf node.id)

/-- What is wrong with nodes and what is below them, sorted by what it is about. -/
theorem perm_nodeFindings (nodes : List Node) :
    (nodes.flatMap fun node => nodeFindings catalog type node (store.below node)).Perm
      (((nodes.filter (·.kind = .group)).map fun node => store.childrenOf node.id).flatMap
          checkSequence ++
        nodes.flatMap (fun node => emptyIssues node (store.childrenOf node.id)) ++
        nodes.flatMap (contentIssues catalog) ++
        ((nodes.filter (·.kind = .group)).map fun node => store.childrenOf node.id).flatMap
          (sequenceFindings type []) ++
        (nodes.filter (·.kind = .function)).flatMap fun node =>
          argumentFindings type node (store.argumentsOf node.id)) := by
  refine List.perm_iff_count.mpr fun issue => ?_
  induction nodes with
  | nil => rfl
  | cons node rest ih =>
    have hempty : emptyIssues node (store.below node) =
        emptyIssues node (store.childrenOf node.id) := by
      cases hkind : node.kind with
      | group => rw [below_of_group hkind]
      | _ => simp [emptyIssues, hkind]
    simp only [List.flatMap_cons, List.filter_cons, List.count_append] at ih ⊢
    rw [ih, nodeFindings, hempty]
    cases hkind : node.kind with
    | group =>
      simp [below, hkind]
      omega
    | function =>
      simp [below, hkind]
      omega
    | _ =>
      simp
      omega

/-- **The issues of a type report are those of each sequence and each node, every one once**, by the
types that the report has for the nodes. -/
theorem Intact.issues_inferTypes_perm (h : store.Intact)
    (hslots : ∀ node ∈ store.nodes, node.kind = .function →
      ((store.argumentsOf node.id).map (·.slot)).Nodup) :
    (store.inferTypes catalog).issues.Perm
      (store.findings catalog (store.inferTypes catalog).typeOf) := by
  have hagrees := h.agrees_inferTypes hslots catalog
  generalize (store.inferTypes catalog).typeOf = type at hagrees
  have hroots : ∀ t ∈ store.forest, t.node.isArgument = false := by
    intro t ht
    obtain ⟨root, hroot, rfl⟩ := List.mem_map.mp ht
    rw [node_tree]
    exact h.isArgument_of_mem_roots hroot
  have hbelow := issues_inferOperands catalog (h.shapedAll hslots) hroots
    (Agrees.append_iff.mp hagrees).1
  have hsequence := issues_sequence_of catalog hbelow hagrees
  have hnodes : ((subtreesAll store.forest).flatMap (Tree.findings catalog type)).Perm
      (store.nodes.flatMap fun node => nodeFindings catalog type node (store.below node)) := by
    have hforest : (subtreesAll store.forest).flatMap (Tree.findings catalog type) =
        store.preorder.flatMap fun node => nodeFindings catalog type node (store.below node) := by
      rw [preorder, ← map_node_subtreesAll, List.flatMap_map]
      refine List.flatMap_congr fun t ht => ?_
      rw [Tree.findings, (subtrees_forest h.acyclic ht).2]
    rw [hforest]
    exact h.isForest.preorder_perm.flatMap_right _
  have hsorted := hnodes.trans (perm_nodeFindings catalog type store.nodes)
  have hmap : store.forest.map node = store.roots := map_node_tree _ _
  rw [hmap] at hsequence
  refine List.perm_iff_count.mpr fun issue => ?_
  have hfirst := hsequence.count_eq issue
  have hsecond := hsorted.count_eq issue
  show List.count issue (inferSequence catalog store.forest).issues = _
  rw [inferSequence, hmap]
  simp only [findings, sequences, List.flatMap_cons, List.count_append] at hfirst hsecond ⊢
  omega

/-- Two numbers in an `AND`, one of them from a boolean, with an empty group behind them. -/
def tangle : Store :=
  ⟨[.ofValue "one" none (some (.integer 1)), .ofOperator "and" none (some "AND"),
    .ofFunction "abs" none (some "abs"), .ofReference "x" (some "first") (some "a"),
    .ofGroup "first" (some "abs") (some 0), .ofGroup "empty" none none]⟩

theorem issues_tangle : tangle.Intact ∧
    (∀ node ∈ tangle.nodes, node.kind = .function →
      ((tangle.argumentsOf node.id).map (·.slot)).Nodup) ∧
    (tangle.inferTypes [⟨"a", "A", some "boolean"⟩]).issues.Perm
      [.missingOperator .function .group "empty", .emptyGroup "empty",
        .operandType .boolean "AND" .left .number "and",
        .operandType .boolean "AND" .right .number "and",
        .argumentType "abs" .number 1 .boolean (some "abs")] := by
  have hintact : tangle.Intact := {
    unique := by decide
    parents := by decide
    acyclic := acyclic_of_measure
      (fun id => if id = "x" then 2 else if id = "first" then 1 else 0) (by decide)
    leaf := by decide
    arguments := by decide
    argument := by decide }
  have hfindings := hintact.issues_inferTypes_perm [⟨"a", "A", some "boolean"⟩] (by decide)
  exact ⟨hintact, by decide, hfindings.trans (.of_eq (by decide))⟩

end Store

end Formulary
