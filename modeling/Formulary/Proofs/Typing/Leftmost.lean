/-
# Operators from left to right

The operators of a sequence are typed one after the other, each with the type of all before it on its
left. A sequence in which operands and operators alternate is therefore typed as if it were parenthesized
to the left: any front of it that ends in an operand may stand in a group of its own, and nothing changes
but that the group is recorded, too (`Typed.Grouped.sameBut`). The group is typed by itself, so that
its issues come before those of the operands behind it, and the records likewise; this is why findings
are compared up to order (`Typed.SameBut`).

Key definitions: `Typed.SameBut`, `Typed.ofSequence`, `Typed.Grouped`.
Key theorems: `Typed.foldOperators_append`, `Typed.ofSequence_congr`, `Typed.Grouped.sameBut`.
-/
import Formulary.Proofs.Grammar.Basic
import Formulary.Proofs.Typing.Records

namespace Formulary
namespace Typed

/-! ### Findings up to order -/

/-- Whether two findings have one type, the same issues in some order, and the same records in some order
for all identifiers but one. -/
structure SameBut (id : String) (t u : Typed) : Prop where
  type : t.type = u.type
  issues : t.issues.Perm u.issues
  records : (t.records.filter (·.1 ≠ id)).Perm (u.records.filter (·.1 ≠ id))

namespace SameBut

variable {id : String} {t u v : Typed}

theorem refl (t : Typed) : t.SameBut id t :=
  ⟨rfl, .refl _, .refl _⟩

theorem trans (h : t.SameBut id u) (h' : u.SameBut id v) : t.SameBut id v :=
  ⟨h.type.trans h'.type, h.issues.trans h'.issues, h.records.trans h'.records⟩

theorem recordAs (h : t.SameBut id u) (key : String) : (t.recordAs key).SameBut id (u.recordAs key) := by
  refine ⟨h.type, h.issues, ?_⟩
  simp only [Typed.recordAs, List.filter_append, h.type]
  exact h.records.append_right _

theorem cons_issue (h : t.SameBut id u) (issue : Issue) :
    { t with issues := issue :: t.issues }.SameBut id { u with issues := issue :: u.issues } :=
  ⟨h.type, h.issues.cons issue, h.records⟩

/-- Findings that differ in order only differ in order only when put together. -/
theorem flatMap {α : Type} {f g : α → Typed} {as : List α} (h : ∀ a ∈ as, (f a).SameBut id (g a)) :
    (as.flatMap fun a => (f a).issues).Perm (as.flatMap fun a => (g a).issues) ∧
      ((as.flatMap fun a => (f a).records).filter (·.1 ≠ id)).Perm
        ((as.flatMap fun a => (g a).records).filter (·.1 ≠ id)) := by
  rw [List.filter_flatMap, List.filter_flatMap]
  exact ⟨List.Perm.flatMap_left as fun a ha => (h a ha).issues,
    List.Perm.flatMap_left as fun a ha => (h a ha).records⟩

end SameBut

/-! ### Calls -/

/-- A call does not tell findings apart that differ in order only. -/
theorem call_congr {id : String} {t u : Node → Typed} (node : Node) {groups : List Node}
    (h : ∀ group ∈ groups, (t group).SameBut id (u group)) :
    (call node (groups.map fun group => (group, t group))).SameBut id
      (call node (groups.map fun group => (group, u group))) := by
  obtain ⟨hissues, hrecords⟩ := SameBut.flatMap h
  have hslots : (groups.map fun group => (group.slot.getD 0, (t group).type)) =
      groups.map fun group => (group.slot.getD 0, (u group).type) :=
    List.map_congr_left fun group hgroup => by rw [(h group hgroup).type]
  unfold call
  simp only [List.flatMap_map, List.map_map, Function.comp_def, hslots]
  split
  · exact ⟨rfl, hissues.append_right _, hrecords⟩
  · exact ⟨rfl, hissues.append_right _, hrecords⟩

/-! ### Running through operators -/

section Fold

variable {types types' : List (String × DataType)}

/-- Behind a front that ends in an operand the operators go on with the type of those in front. -/
theorem foldOperators_append : ∀ {previous : Option Node} {sofar : Option DataType}
    {front behind : List Node}, (∀ node ∈ front.getLast?, node.isOperand = true) →
    foldOperators types previous sofar (front ++ behind) =
      let first := foldOperators types previous sofar front
      let rest := foldOperators types (front.getLast?.or previous) first.1 behind
      (rest.1, first.2.1 ++ rest.2.1, first.2.2 ++ rest.2.2)
  | _, _, [], _, _ => rfl
  | previous, sofar, node :: front, behind, hlast => by
    have hrest : ∀ n ∈ front.getLast?, n.isOperand = true := by
      intro n hn
      refine hlast n ?_
      rw [List.getLast?_cons, hn]
      rfl
    have ih := fun sofar => @foldOperators_append (some node) sofar front behind hrest
    have hprevious : (node :: front).getLast?.or previous = front.getLast?.or (some node) := by
      rw [List.getLast?_cons]
      cases front.getLast? <;> rfl
    rw [hprevious, List.cons_append, foldOperators, foldOperators]
    by_cases hkind : node.kind = .operator
    · -- An operator is not the last of the front, so that it has its right neighbour there.
      have hhead : (front ++ behind).head? = front.head? := by
        cases front with
        | nil =>
          have hoperand := hlast node rfl
          rw [(Node.kind_eq_operator_iff node).mp hkind] at hoperand
          cases hoperand
        | cons next front => rfl
      simp only [if_pos hkind, hhead, ih, List.append_assoc, List.cons_append]
    · simp only [if_neg hkind, ih]

theorem besideOperator_head {nodes : List Node}
    (h : ∀ node ∈ nodes, besideOperator types (some node) = besideOperator types' (some node)) :
    besideOperator types nodes.head? = besideOperator types' nodes.head? := by
  cases nodes with
  | nil => rfl
  | cons node _ => exact h node List.mem_cons_self

/-- Operators read the types of the nodes beside them only, and the node in front no longer once there
is a type for what is in front. -/
theorem foldOperators_congr : ∀ {nodes : List Node} {previous previous' : Option Node}
    {sofar : Option DataType},
    (∀ node ∈ nodes, besideOperator types (some node) = besideOperator types' (some node)) →
    sofar.getD (besideOperator types previous) = sofar.getD (besideOperator types' previous') →
    foldOperators types previous sofar nodes = foldOperators types' previous' sofar nodes
  | [], _, _, _, _, _ => rfl
  | node :: rest, previous, previous', sofar, hnodes, hleft => by
    have hrest : ∀ n ∈ rest, besideOperator types (some n) = besideOperator types' (some n) :=
      fun n hn => hnodes n (List.mem_cons_of_mem _ hn)
    have hnode := hnodes node List.mem_cons_self
    rw [foldOperators, foldOperators, hleft, besideOperator_head hrest]
    have hsome : ∀ type : DataType, foldOperators types (some node) (some type) rest =
        foldOperators types' (some node) (some type) rest :=
      fun type => foldOperators_congr hrest rfl
    have hsofar : foldOperators types (some node) sofar rest =
        foldOperators types' (some node) sofar rest :=
      foldOperators_congr hrest (congrArg sofar.getD hnode)
    simp only [hsome, hsofar]

/-- An operator in front reads what is on its left as one type. -/
theorem foldOperators_cons_congr {node : Node} (hkind : node.kind = .operator) {rest : List Node}
    {previous previous' : Option Node} {sofar sofar' : Option DataType}
    (hrest : ∀ n ∈ rest, besideOperator types (some n) = besideOperator types' (some n))
    (hleft : sofar.getD (besideOperator types previous) =
      sofar'.getD (besideOperator types' previous')) :
    foldOperators types previous sofar (node :: rest) =
      foldOperators types' previous' sofar' (node :: rest) := by
  have hsome : ∀ type : DataType, foldOperators types (some node) (some type) rest =
      foldOperators types' (some node) (some type) rest :=
    fun type => foldOperators_congr hrest rfl
  rw [foldOperators, foldOperators, if_pos hkind, if_pos hkind, hleft, besideOperator_head hrest]
  simp only [hsome]

theorem isSome_foldOperators (type : DataType) : ∀ {nodes : List Node} {previous : Option Node},
    ∃ last, (foldOperators types previous (some type) nodes).1 = some last
  | [], _ => ⟨type, rfl⟩
  | node :: rest, previous => by
    rw [foldOperators]
    split
    · exact isSome_foldOperators _
    · exact isSome_foldOperators type

theorem isSome_foldOperators_cons {node : Node} (hkind : node.kind = .operator) {rest : List Node}
    {previous : Option Node} {sofar : Option DataType} :
    ∃ last, (foldOperators types previous sofar (node :: rest)).1 = some last := by
  rw [foldOperators, if_pos hkind]
  exact isSome_foldOperators _

end Fold

/-! ### Sequences -/

/-- In a sequence that alternates an operator comes after the first operand. -/
theorem kinds_of_alternates {node next : Node} {rest : List Node}
    (h : Role.alternates ((node :: next :: rest).map Node.role) = true) :
    node.isOperand = true ∧ next.kind = .operator := by
  rw [List.map_cons, List.map_cons, Role.alternates, Node.isOperand_role, Node.isOperand_role] at h
  simp only [Bool.and_eq_true, Bool.not_eq_true'] at h
  exact ⟨h.1.1, (Node.kind_eq_operator_iff next).mpr h.1.2⟩

/-- The types of the operands among nodes, given what was found about them. -/
def operandTypes (nodes : List Node) (t : Node → Typed) : List (String × DataType) :=
  (nodes.filter (·.isOperand)).map fun node => (node.id, (t node).type)

/-- What is found about a sequence, given what was found about its operands. -/
def ofSequence (nodes : List Node) (t : Node → Typed) : Typed :=
  sequence nodes ((nodes.filter (·.isOperand)).map fun node => (node, t node))

section Sequences

variable {id : String} {nodes front behind : List Node} {t u : Node → Typed} {node group : Node}

theorem besideOperator_operandTypes (hunique : (idsOf nodes).Nodup) (hnode : node ∈ nodes) :
    besideOperator (operandTypes nodes t) (some node) =
      if node.isOperand then (t node).type else .unknown := by
  unfold besideOperator
  by_cases hoperand : node.isOperand = true
  · have hkeys : (keysOf (operandTypes nodes t)).Nodup := by
      rw [keysOf, operandTypes, List.map_map]
      exact hunique.sublist (List.filter_sublist.map _)
    have hrecord : (node.id, (t node).type) ∈ operandTypes nodes t :=
      List.mem_map_of_mem (List.mem_filter.mpr ⟨hnode, hoperand⟩)
    simp only [if_pos hoperand, lastRecord?_of_mem hkeys hrecord, Option.getD_some]
  · simp only [if_neg hoperand]

/-- The parts of what is found about a sequence. -/
theorem ofSequence_eq (nodes : List Node) (t : Node → Typed) :
    let fold := foldOperators (operandTypes nodes t) none none nodes
    (ofSequence nodes t).issues = checkSequence nodes ++
        (nodes.filter (·.isOperand)).flatMap (fun node => (t node).issues) ++ fold.2.1 ∧
      (ofSequence nodes t).records =
        (nodes.filter (·.isOperand)).flatMap (fun node => (t node).records) ++ fold.2.2 := by
  simp only [ofSequence, sequence, List.flatMap_map, List.map_map, operandTypes]
  exact ⟨rfl, rfl⟩

/-- The type of a sequence is that of its last operator, or else of its only operand. -/
theorem type_ofSequence (h : Role.alternates (nodes.map Node.role) = true) (t : Node → Typed) :
    (ofSequence nodes t).type =
      (foldOperators (operandTypes nodes t) none none nodes).1.getD
        (besideOperator (operandTypes nodes t) nodes.getLast?) := by
  have htypes : ((nodes.filter (·.isOperand)).map fun node => (node, t node)).map
      (fun o => (o.1.id, o.2.type)) = operandTypes nodes t := by
    rw [List.map_map]
    rfl
  simp only [ofSequence, sequence, htypes]
  rcases nodes with _ | ⟨node, _ | ⟨next, rest⟩⟩
  · cases h
  · cases (foldOperators _ none none [node]).1 <;> rfl
  · obtain ⟨hnode, hnext⟩ := kinds_of_alternates h
    rw [foldOperators, if_neg (Node.kind_ne_operator hnode)]
    obtain ⟨last, hlast⟩ := @isSome_foldOperators_cons (operandTypes (node :: next :: rest) t) next
      hnext rest (some node) none
    rw [hlast]
    rfl

theorem ofSequence_congr (h : ∀ node ∈ nodes, node.isOperand = true → (t node).SameBut id (u node)) :
    (ofSequence nodes t).SameBut id (ofSequence nodes u) := by
  have hoperands : ∀ node ∈ nodes.filter (·.isOperand), (t node).SameBut id (u node) := by
    intro node hnode
    rw [List.mem_filter] at hnode
    exact h node hnode.1 hnode.2
  obtain ⟨hissues, hrecords⟩ := SameBut.flatMap hoperands
  have htypes : (nodes.filter (·.isOperand)).map (fun node => (node.id, (t node).type)) =
      (nodes.filter (·.isOperand)).map fun node => (node.id, (u node).type) :=
    List.map_congr_left fun node hnode => by rw [(hoperands node hnode).type]
  unfold ofSequence sequence
  simp only [List.flatMap_map, List.map_map, Function.comp_def, htypes]
  refine ⟨rfl, (hissues.append_left _).append_right _, ?_⟩
  rw [List.filter_append, List.filter_append]
  exact hrecords.append_right _

end Sequences

/-! ### The front of a sequence in a group -/

/-- Whether a sequence in which operands and operators alternate has a front that ends in an operand, and
what `u` has for a group in the place of the front is what `t` has for the front. -/
structure Grouped (front behind : List Node) (group : Node) (t u : Node → Typed) : Prop where
  unique : (idsOf (front ++ behind)).Nodup
  check : checkSequence (front ++ behind) = []
  odd : front.length % 2 = 1
  operand : group.isOperand = true
  fresh : group.id ∉ idsOf behind
  body : u group = (ofSequence front t).recordAs group.id
  others : ∀ node ∈ behind, u node = t node

namespace Grouped

variable {front behind : List Node} {group : Node} {t u : Node → Typed}

theorem alternates_whole (h : Grouped front behind group t u) :
    Role.alternates ((front ++ behind).map Node.role) = true := by
  refine (checkSequence_eq_nil_iff _).mp ⟨fun hnil => ?_, h.check⟩
  have hodd := h.odd
  rw [(List.append_eq_nil_iff.mp hnil).1] at hodd
  cases hodd

/-- Operands and operators alternate in the front, and with the group in its place. -/
theorem alternates (h : Grouped front behind group t u) :
    Role.alternates (front.map Node.role) = true ∧
      Role.alternates ((group :: behind).map Node.role) = true := by
  have hwhole := h.alternates_whole
  have hodd : (front.map Node.role).length % 2 = 1 := by
    rw [List.length_map]
    exact h.odd
  rw [List.map_append, Role.alternates_append ((Node.isOperand_role group).trans h.operand) hodd,
    Bool.and_eq_true] at hwhole
  exact hwhole

theorem isOperand_last (h : Grouped front behind group t u) :
    ∀ node ∈ front.getLast?, node.isOperand = true := by
  intro node hnode
  rw [← Node.isOperand_role]
  refine Role.isOperand_of_mem_getLast? h.alternates.1 ?_
  rw [List.getLast?_map, hnode]
  rfl

/-- What follows the front is an operator. -/
theorem kind_head (h : Grouped front behind group t u) :
    ∀ node ∈ behind.head?, node.kind = .operator := by
  intro node hnode
  obtain ⟨rest, rfl⟩ := List.head?_eq_some_iff.mp hnode
  exact (kinds_of_alternates h.alternates.2).2

theorem unique_front (h : Grouped front behind group t u) : (idsOf front).Nodup :=
  h.unique.sublist ((List.sublist_append_left front behind).map _)

theorem unique_grouped (h : Grouped front behind group t u) : (idsOf (group :: behind)).Nodup :=
  List.nodup_cons.mpr ⟨h.fresh, h.unique.sublist ((List.sublist_append_right front behind).map _)⟩

theorem besideOperator_front (h : Grouped front behind group t u) : ∀ node ∈ front,
    besideOperator (operandTypes (front ++ behind) t) (some node) =
      besideOperator (operandTypes front t) (some node) := by
  intro node hnode
  rw [besideOperator_operandTypes h.unique (List.mem_append_left _ hnode),
    besideOperator_operandTypes h.unique_front hnode]

theorem besideOperator_behind (h : Grouped front behind group t u) : ∀ node ∈ behind,
    besideOperator (operandTypes (front ++ behind) t) (some node) =
      besideOperator (operandTypes (group :: behind) u) (some node) := by
  intro node hnode
  rw [besideOperator_operandTypes h.unique (List.mem_append_right _ hnode),
    besideOperator_operandTypes h.unique_grouped (List.mem_cons_of_mem _ hnode), h.others node hnode]

theorem besideOperator_group (h : Grouped front behind group t u) :
    besideOperator (operandTypes (group :: behind) u) (some group) = (ofSequence front t).type := by
  rw [besideOperator_operandTypes h.unique_grouped List.mem_cons_self, if_pos h.operand, h.body]
  rfl

/-- The operators in the front run as they do in the group, and those behind it as behind the group. -/
theorem foldOperators_eq (h : Grouped front behind group t u) :
    let whole := foldOperators (operandTypes (front ++ behind) t) none none (front ++ behind)
    let first := foldOperators (operandTypes front t) none none front
    let rest := foldOperators (operandTypes (group :: behind) u) none none (group :: behind)
    whole.2 = (first.2.1 ++ rest.2.1, first.2.2 ++ rest.2.2) ∧
      whole.1.getD (besideOperator (operandTypes (front ++ behind) t) (front ++ behind).getLast?) =
        rest.1.getD (besideOperator (operandTypes (group :: behind) u) (group :: behind).getLast?) := by
  have hfirst : foldOperators (operandTypes (front ++ behind) t) none none front =
      foldOperators (operandTypes front t) none none front :=
    foldOperators_congr h.besideOperator_front rfl
  -- What is on the left of the first operator behind the front is one type either way.
  have hleft : (foldOperators (operandTypes front t) none none front).1.getD
      (besideOperator (operandTypes (front ++ behind) t) front.getLast?) =
        besideOperator (operandTypes (group :: behind) u) (some group) := by
    rw [h.besideOperator_group, type_ofSequence h.alternates.1 t]
    cases hnode : front.getLast? with
    | none => rfl
    | some node => rw [h.besideOperator_front node (List.mem_of_getLast? hnode)]
  have hbehind := h.besideOperator_behind
  dsimp only
  rw [foldOperators_append h.isOperand_last, Option.or_none, hfirst]
  rw [foldOperators.eq_2 _ _ _ group, if_neg (Node.kind_ne_operator h.operand)]
  dsimp only
  generalize operandTypes (front ++ behind) t = types at hleft hbehind ⊢
  generalize operandTypes (group :: behind) u = types' at hleft hbehind ⊢
  cases behind with
  | nil =>
    rw [List.append_nil]
    exact ⟨rfl, hleft⟩
  | cons node rest =>
    have hrun := @foldOperators_cons_congr types types' node (h.kind_head node rfl) rest
      front.getLast? (some group) _ none (fun n hn => hbehind n (List.mem_cons_of_mem _ hn)) hleft
    obtain ⟨last, hlast⟩ := @isSome_foldOperators_cons types' node (h.kind_head node rfl) rest
      (some group) none
    rw [hrun, hlast]
    exact ⟨rfl, rfl⟩

/-- **The front of a sequence in a group of its own** is typed as it was, if it ends in an operand. -/
theorem sameBut (h : Grouped front behind group t u) :
    (ofSequence (front ++ behind) t).SameBut group.id (ofSequence (group :: behind) u) := by
  obtain ⟨hfront, hgrouped⟩ := h.alternates
  obtain ⟨hfold, htype⟩ := h.foldOperators_eq
  obtain ⟨hissues, hrecords⟩ := ofSequence_eq (front ++ behind) t
  obtain ⟨hissuesFront, hrecordsFront⟩ := ofSequence_eq front t
  obtain ⟨hissuesGrouped, hrecordsGrouped⟩ := ofSequence_eq (group :: behind) u
  have hothers : ∀ n ∈ behind.filter (·.isOperand), u n = t n :=
    fun n hn => h.others n (List.mem_of_mem_filter hn)
  rw [h.check, hfold, List.filter_append, List.flatMap_append] at hissues
  rw [hfold, List.filter_append, List.flatMap_append] at hrecords
  rw [((checkSequence_eq_nil_iff _).mpr hfront).2] at hissuesFront
  rw [((checkSequence_eq_nil_iff _).mpr hgrouped).2, List.filter_cons_of_pos h.operand,
    List.flatMap_cons, h.body, Typed.recordAs, hissuesFront,
    List.flatMap_congr fun n hn => congrArg Typed.issues (hothers n hn)] at hissuesGrouped
  rw [List.filter_cons_of_pos h.operand, List.flatMap_cons, h.body, Typed.recordAs, hrecordsFront,
    List.flatMap_congr fun n hn => congrArg Typed.records (hothers n hn)] at hrecordsGrouped
  -- In the group the operators of the front come before the operands behind it.
  refine ⟨?_, ?_, ?_⟩
  · rw [type_ofSequence h.alternates_whole, type_ofSequence hgrouped, htype]
  · rw [hissues, hissuesGrouped]
    simp only [List.nil_append, List.append_assoc]
    exact (List.perm_append_comm_assoc _ _ _).append_left _
  · have hown : List.filter (·.1 ≠ group.id) [(group.id, (ofSequence front t).type)] = [] := by simp
    rw [hrecords, hrecordsGrouped]
    simp only [List.filter_append, hown, List.append_assoc]
    exact (List.perm_append_comm_assoc _ _ _).append_left _

end Grouped


end Typed
end Formulary
