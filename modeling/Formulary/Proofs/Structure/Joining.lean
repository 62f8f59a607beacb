/-
# Joining broken connections

A broken connection is mended by an operator between its operands. The operator is put right behind the
first operand in the list of nodes, where it stands between the two among the roots, whatever other nodes
stand there in the list. It is nobody's parent and has none, so that all that is said of other nodes stays
(`Store.GainsRoot.integrityIssues_eq`, `Store.GainsRoot.flatMap_functionIssues_eq`), and in the sequence of
the roots exactly the one connection and the one issue about it are gone (`checkSequence_join`). So
connections can be mended one after the other, in any order, until none is left (`Store.joins`).

Key definitions: `Store.GainsRoot`, `StructureReport.Mends`, `Fix`, `Store.fixAll`.
Key theorems: `checkSequence_join`, `Store.GainsRoot.mends`, `Store.mends_of_mem_broken`,
`Store.fixAll_of_perm`, `Store.joins`.
-/
import Formulary.Proofs.Structure.Further

namespace Formulary

/-! ### Sequences -/

section Sequence

variable {xs ys : List Node} {n m : Node}

theorem brokenPairs_append (n : Node) (ys : List Node) : ∀ xs : List Node,
    brokenPairs (xs ++ n :: ys) = brokenPairs (xs ++ [n]) ++ brokenPairs (n :: ys)
  | [] => by simp [brokenPairs]
  | [x] => by
    by_cases hboth : (x.isOperand && n.isOperand) = true
    · simp [brokenPairs, hboth]
    · simp [brokenPairs, hboth]
  | x :: y :: xs => by
    have ih := brokenPairs_append n ys (y :: xs)
    simp only [List.cons_append] at ih ⊢
    rw [brokenPairs, brokenPairs, ih]
    by_cases hboth : (x.isOperand && y.isOperand) = true
    · rw [if_pos hboth, if_pos hboth, List.cons_append]
    · rw [if_neg hboth, if_neg hboth]

/-- A broken pair are two operands next to each other. -/
theorem exists_of_mem_brokenPairs : ∀ {nodes : List Node}, (n, m) ∈ brokenPairs nodes →
    ∃ xs ys, nodes = xs ++ n :: m :: ys ∧ n.isOperand = true ∧ m.isOperand = true
  | x :: y :: rest, h => by
    have hlater : (n, m) ∈ brokenPairs (y :: rest) → ∃ xs ys, x :: y :: rest =
        xs ++ n :: m :: ys ∧ n.isOperand = true ∧ m.isOperand = true := by
      intro hmem
      obtain ⟨xs, ys, heq, hoperands⟩ := exists_of_mem_brokenPairs hmem
      exact ⟨x :: xs, ys, by rw [heq, List.cons_append], hoperands⟩
    rw [brokenPairs] at h
    by_cases hboth : (x.isOperand && y.isOperand) = true
    · rw [if_pos hboth] at h
      rcases List.mem_cons.mp h with heq | h
      · obtain ⟨rfl, rfl⟩ := Prod.mk.inj heq
        exact ⟨[], rest, rfl, by simpa using hboth⟩
      · exact hlater h
    · rw [if_neg hboth] at h
      exact hlater h

/-- The second node of a broken pair is not the first of the sequence. -/
theorem mem_tail_of_mem_brokenPairs {nodes : List Node} (h : (n, m) ∈ brokenPairs nodes) :
    m ∈ nodes.tail := by
  obtain ⟨xs, ys, rfl, -⟩ := exists_of_mem_brokenPairs h
  cases xs <;> simp

/-- An operand lacks nothing. -/
theorem missingOperands_operand (hn : n.isOperand = true) (previous : Option Node)
    (rest : List Node) : missingOperands previous (n :: rest) = missingOperands (some n) rest := by
  have hkind : n.kind ≠ .operator := by simp [Node.kind_eq_operator_iff, hn]
  rw [missingOperands, if_neg hkind, List.nil_append]

/-- What operators lack in front of an operand has nothing to do with what is behind it. -/
theorem missingOperands_append (hn : n.isOperand = true) (ys : List Node) :
    ∀ (xs : List Node) (previous : Option Node), missingOperands previous (xs ++ n :: ys) =
      missingOperands previous (xs ++ [n]) ++ missingOperands (some n) ys
  | [], previous => by
    rw [List.nil_append, List.nil_append, missingOperands_operand hn, missingOperands_operand hn]
    rfl
  | x :: xs, previous => by
    have hhead : (xs ++ n :: ys).head? = (xs ++ [n]).head? := by cases xs <;> rfl
    rw [List.cons_append, List.cons_append, missingOperands, missingOperands,
      missingOperands_append hn ys xs, hhead, List.append_assoc]

variable {before after joint : Node}

/-- **With an operator between two operands their pair is gone, and no other**: of the other pairs none
has the same second node. -/
theorem brokenPairs_join (hbefore : before.isOperand = true) (hafter : after.isOperand = true)
    (hjoint : joint.kind = .operator) (xs ys : List Node) :
    ∃ first rest, brokenPairs (xs ++ before :: after :: ys) = first ++ (before, after) :: rest ∧
      brokenPairs (xs ++ before :: joint :: after :: ys) = first ++ rest ∧
        ∀ pair ∈ first ++ rest, pair.2 ∈ xs ++ before :: ys := by
  have hoperator : joint.isOperand = false := joint.kind_eq_operator_iff.mp hjoint
  refine ⟨brokenPairs (xs ++ [before]), brokenPairs (after :: ys), ?_, ?_, fun (n, m) hpair => ?_⟩
  · rw [brokenPairs_append before (after :: ys) xs]
    simp [brokenPairs, hbefore, hafter]
  · rw [brokenPairs_append before (joint :: after :: ys) xs]
    simp [brokenPairs, hoperator]
  · rcases List.mem_append.mp hpair with hpair | hpair
    · have hmem : m ∈ xs ++ [before] := List.mem_of_mem_tail (mem_tail_of_mem_brokenPairs hpair)
      simp only [List.mem_append, List.mem_cons] at hmem ⊢
      tauto
    · have hmem : m ∈ ys := mem_tail_of_mem_brokenPairs hpair
      simp [hmem]

/-- An operator between two operands lacks none. -/
theorem missingOperands_join (hbefore : before.isOperand = true) (hafter : after.isOperand = true)
    (hjoint : joint.kind = .operator) (xs ys : List Node) :
    missingOperands none (xs ++ before :: joint :: after :: ys) =
      missingOperands none (xs ++ before :: after :: ys) := by
  have hlacks : missingOperands (some before) (joint :: after :: ys) =
      missingOperands (some joint) (after :: ys) := by
    rw [missingOperands, if_pos hjoint]
    simp [isOperandBeside, hbefore, hafter]
  rw [missingOperands_append hbefore (after :: ys), missingOperands_append hbefore (joint :: after :: ys),
    hlacks, missingOperands_operand hafter, missingOperands_operand hafter]

/-- **With an operator between two operands one issue is gone**, and the others are about other nodes or
of another kind. -/
theorem checkSequence_join (hbefore : before.isOperand = true) (hafter : after.isOperand = true)
    (hjoint : joint.kind = .operator) (xs ys : List Node) :
    ∃ first rest, checkSequence (xs ++ before :: after :: ys) =
        first ++ .missingOperator before.kind after.kind after.id :: rest ∧
      checkSequence (xs ++ before :: joint :: after :: ys) = first ++ rest ∧
        ∀ issue ∈ first ++ rest, issue.code = "missing_operator" →
          ∃ n ∈ xs ++ before :: ys, issue.node? = some n.id := by
  have hsome : lacksOperands (xs ++ before :: after :: ys) = false := by
    simp [lacksOperands, hbefore]
  have hsome' : lacksOperands (xs ++ before :: joint :: after :: ys) = false := by
    simp [lacksOperands, hbefore]
  obtain ⟨first, rest, hpairs, hpairs', hothers⟩ := brokenPairs_join hbefore hafter hjoint xs ys
  refine ⟨first.map fun pair => .missingOperator pair.1.kind pair.2.kind pair.2.id,
    (rest.map fun pair => .missingOperator pair.1.kind pair.2.kind pair.2.id) ++
      missingOperands none (xs ++ before :: after :: ys), ?_, ?_, ?_⟩
  · rw [checkSequence, hsome, hpairs]
    simp
  · rw [checkSequence, hsome', hpairs', missingOperands_join hbefore hafter hjoint]
    simp
  · intro issue hissue hcode
    rw [← List.append_assoc, ← List.map_append] at hissue
    rcases List.mem_append.mp hissue with hissue | hissue
    · obtain ⟨pair, hpair, rfl⟩ := List.mem_map.mp hissue
      exact ⟨pair.2, hothers pair hpair, rfl⟩
    · rw [code_of_mem_missingOperands hissue] at hcode
      exact absurd hcode (by decide)

/-- Only two operands next to each other lack an operator. -/
theorem exists_of_missingOperator {nodes : List Node} {issue : Issue}
    (h : issue ∈ checkSequence nodes) (hcode : issue.code = "missing_operator") :
    ∃ pair ∈ brokenPairs nodes,
      issue = .missingOperator pair.1.kind pair.2.kind pair.2.id := by
  have hmem : issue ∈ (brokenPairs nodes).map fun pair =>
      .missingOperator pair.1.kind pair.2.kind pair.2.id := by
    unfold checkSequence at h
    by_cases hlacks : lacksOperands nodes = true
    · rw [if_pos hlacks] at h
      rcases List.mem_cons.mp h with rfl | h
      · exact absurd hcode (by decide)
      · exact h
    · rw [if_neg hlacks] at h
      rcases List.mem_append.mp h with h | h
      · exact h
      · rw [code_of_mem_missingOperands h] at hcode
        exact absurd hcode (by decide)
  obtain ⟨pair, hpair, rfl⟩ := List.mem_map.mp hmem
  exact ⟨pair, hpair, rfl⟩

end Sequence

namespace Store

/-! ### A further root -/

/-- Whether a store is another one with a further root among its nodes, which is nobody's parent. -/
structure GainsRoot (store more : Store) (new : Node) : Prop where
  nodes : ∃ first rest, store.nodes = first ++ rest ∧ more.nodes = first ++ new :: rest
  root : new.parent = none
  unused : store.Unused new.id

namespace GainsRoot

variable {store more : Store} {new : Node} (h : store.GainsRoot more new)

include h

theorem childrenOf_eq (id : String) : more.childrenOf id = store.childrenOf id := by
  obtain ⟨first, rest, hstore, hmore⟩ := h.nodes
  have hnew : ¬new.parent = some id := by simp [h.root]
  simp [childrenOf, hstore, hmore, List.filter_append, hnew]

theorem functionIssues_eq : more.functionIssues = store.functionIssues := by
  funext node
  rw [functionIssues, functionIssues, slotsOf, slotsOf, argumentsOf, argumentsOf, h.childrenOf_eq]

/-- **Nothing is wrong with a further root**, and nothing else changes, if it is a known operator. -/
theorem integrityIssues_eq (hunique : (idsOf store.nodes).Nodup) (hkind : new.kind = .operator)
    (hknown : operatorIssues new = []) (catalog : Option Catalog) :
    more.integrityIssues catalog = store.integrityIssues catalog := by
  have hparent : more.parentIssues new = [] := by
    rw [parentIssues, h.root]
  have hargument : more.argumentIssues new = [] := by
    simp [argumentIssues, Node.isArgument, hkind]
  have hreference : referenceIssues catalog new = [] := by
    simp [referenceIssues, hkind]
  obtain ⟨first, rest, hstore, hmore⟩ := h.nodes
  have hgains : store.Gains new first rest more := ⟨hstore, hmore, h.unused.1⟩
  obtain ⟨earlier, later, hbefore, hafter⟩ := hgains.exists_integrityIssues h.unused hunique catalog
  rw [hafter, hbefore, nodeIssues, hparent, hargument, hknown, hreference]
  simp

/-- A further operator has no arguments in which anything could be wrong. -/
theorem flatMap_functionIssues_eq (hkind : new.kind = .operator) :
    (more.nodes.filter (·.kind = .function)).flatMap more.functionIssues =
      (store.nodes.filter (·.kind = .function)).flatMap store.functionIssues := by
  obtain ⟨first, rest, hstore, hmore⟩ := h.nodes
  have hnew : ¬new.kind = .function := by simp [hkind]
  have hnodes : more.nodes.filter (·.kind = .function) = store.nodes.filter (·.kind = .function) := by
    simp [hstore, hmore, List.filter_append, hnew]
  rw [hnodes, h.functionIssues_eq]

end GainsRoot

end Store

/-! ### One connection -/

/-- Whether the report `other` is what is left of a report once a connection is mended: the connection
and the one issue about it are gone, and everything else is there in its order. -/
structure StructureReport.Mends (report : StructureReport) (connection : BrokenConnection)
    (other : StructureReport) : Prop where
  broken : ∃ first rest, report.broken = first ++ connection :: rest ∧
    other.broken = first ++ rest ∧ connection ∉ first ++ rest
  issues : ∃ first issue rest, report.issues = first ++ issue :: rest ∧
    other.issues = first ++ rest ∧
      issue.code = "missing_operator" ∧ issue.node? = some connection.after ∧
        ∀ o ∈ first ++ rest, o.code = "missing_operator" → o.node? ≠ some connection.after

namespace Store

variable {store : Store} {catalog : Option Catalog} {connection : BrokenConnection}

/-- Where the node stands, the new one comes right behind it. -/
theorem putAfter_append {node : Node} (new : Node) (rest : List Node) : ∀ {first : List Node},
    node.id ∉ idsOf first →
      putAfter node.id new (first ++ node :: rest) = first ++ node :: new :: rest
  | [], _ => by simp [putAfter]
  | other :: first, h => by
    have hother : ¬other.id = node.id := fun heq => h (by simp [idsOf, heq])
    have hfirst : node.id ∉ idsOf first := fun hmem => h (List.mem_cons_of_mem _ hmem)
    rw [List.cons_append, putAfter, if_neg hother, putAfter_append new rest hfirst, List.cons_append]

theorem roots_eq_filter : store.roots = store.nodes.filter (·.parent = none) :=
  List.filter_congr fun node _ => by cases node.parent <;> simp

/-- What is in front of a node and behind it is so in a part of the list, too, as the node stands in one place
only. -/
theorem filter_around {first rest earlier later : List Node} {node : Node} {p : Node → Bool}
    (hunique : (idsOf (first ++ node :: rest)).Nodup) (hnode : p node = true)
    (h : (first ++ node :: rest).filter p = earlier ++ node :: later) :
    first.filter p = earlier ∧ rest.filter p = later := by
  have hsole : node ∉ first ++ rest := fun hmem =>
    id_notMem_of_nodup hunique (List.mem_map_of_mem hmem)
  have hfirst : node ∉ first.filter p := fun hin =>
    hsole (List.mem_append_left _ (List.mem_filter.mp hin).1)
  have hrest : node ∉ rest.filter p := fun hin =>
    hsole (List.mem_append_right _ (List.mem_filter.mp hin).1)
  rw [List.filter_append, List.filter_cons_of_pos hnode] at h
  obtain ⟨hearlier, -, hlater⟩ := (List.append_cons_inj_of_notMem hfirst hrest).mp h
  exact ⟨hearlier, hlater⟩

/-- A broken connection are two operands among the roots. In the list of nodes the second is the next root
behind the first. -/
theorem exists_of_mem_broken (hunique : (idsOf store.nodes).Nodup)
    (h : connection ∈ (store.structureReport catalog).broken) :
    ∃ first before after later rest, connection = ⟨before.id, after.id⟩ ∧
      store.nodes = first ++ before :: rest ∧ before.parent = none ∧
        before.isOperand = true ∧ after.isOperand = true ∧
          rest.filter (·.parent.isNone) = after :: later := by
  obtain ⟨⟨before, after⟩, hpair, rfl⟩ := List.mem_map.mp h
  obtain ⟨earlier, later, hroots, hbefore, hafter⟩ := exists_of_mem_brokenPairs hpair
  have hmem : before ∈ store.roots := by simp [hroots]
  obtain ⟨hnode, hparent⟩ := List.mem_filter.mp hmem
  obtain ⟨first, rest, hnodes⟩ := List.append_of_mem hnode
  have hsplit : (first ++ before :: rest).filter (·.parent.isNone) =
      earlier ++ before :: after :: later := by rw [← hnodes, ← roots, hroots]
  obtain ⟨-, hlater⟩ := filter_around (hnodes ▸ hunique) hparent hsplit
  exact ⟨first, before, after, later, rest, rfl, hnodes, by simpa using hparent, hbefore, hafter, hlater⟩

/-- The operator goes right behind the first operand in the list of nodes. -/
theorem insertOperator_of_roots {first rest later : List Node} {before after : Node}
    (hunique : (idsOf store.nodes).Nodup) (hnodes : store.nodes = first ++ before :: rest)
    (hroot : before.parent = none) (hlater : rest.filter (·.parent.isNone) = after :: later)
    {fresh : String} (hfree : fresh ∉ idsOf store.nodes) (symbol : Option String) :
    store.insertOperator before.id after.id symbol fresh =
      .ok (.ofOperator fresh none symbol, ⟨first ++ before :: .ofOperator fresh none symbol :: rest⟩) := by
  have hmem : before ∈ store.nodes := by simp [hnodes]
  have hnext : store.NextSibling before.id after.id := by
    refine (nextSibling_iff hunique).mpr
      ⟨none, first.filter (·.parent.isNone), before, after, later, ?_, rfl, rfl⟩
    rw [← roots_eq_filter, roots, hnodes, List.filter_append,
      List.filter_cons_of_pos (by simp [hroot]), hlater]
  have hfirst : before.id ∉ idsOf first := by
    rw [hnodes] at hunique
    intro hin
    refine id_notMem_of_nodup hunique ?_
    rw [idsOf, List.map_append]
    exact List.mem_append_left _ hin
  rw [insertOperator_of_next (get?_of_unique hunique hmem) hnext hfree, hroot, hnodes,
    putAfter_append _ _ hfirst]

/-- Only one root has the identifier of the second operand. -/
theorem id_ne_of_roots {earlier later : List Node} {before after n : Node}
    (hunique : (idsOf store.nodes).Nodup) (hroots : store.roots = earlier ++ before :: after :: later)
    (hn : n ∈ earlier ++ before :: later) : n.id ≠ after.id := by
  have hnodup : (idsOf (earlier ++ before :: after :: later)).Nodup := by
    rw [← hroots]
    exact hunique.sublist (List.filter_sublist.map _)
  rw [List.append_cons] at hnodup
  rw [List.append_cons] at hn
  exact fun heq => id_notMem_of_nodup hnodup (List.mem_map.mpr ⟨n, hn, heq⟩)

/-- From the report the connection of two operands and the issue about it are gone once a further root
stands between them and is an operator. -/
theorem GainsRoot.mends {more : Store} {earlier later : List Node} {before after joint : Node}
    (h : store.GainsRoot more joint) (hunique : (idsOf store.nodes).Nodup)
    (hkind : joint.kind = .operator) (hknown : operatorIssues joint = [])
    (hbefore : before.isOperand = true) (hafter : after.isOperand = true)
    (hroots : store.roots = earlier ++ before :: after :: later)
    (hjoined : more.roots = earlier ++ before :: joint :: after :: later) :
    (store.structureReport catalog).Mends ⟨before.id, after.id⟩ (more.structureReport catalog) := by
  constructor
  · obtain ⟨first, rest, hpairs, hpairs', hothers⟩ :=
      brokenPairs_join hbefore hafter hkind earlier later
    rw [← hroots] at hpairs
    rw [← hjoined] at hpairs'
    refine ⟨first.map fun pair => ⟨pair.1.id, pair.2.id⟩,
      rest.map fun pair => ⟨pair.1.id, pair.2.id⟩, ?_, ?_, ?_⟩
    · rw [structureReport, brokenConnections, hpairs]
      simp
    · rw [structureReport, brokenConnections, hpairs']
      simp
    · rw [← List.map_append]
      intro hin
      obtain ⟨pair, hpair, heq⟩ := List.mem_map.mp hin
      exact id_ne_of_roots hunique hroots (hothers pair hpair) (BrokenConnection.mk.inj heq).2
  · obtain ⟨first, rest, hsequence, hsequence', hothers⟩ :=
      checkSequence_join hbefore hafter hkind earlier later
    rw [← hroots] at hsequence
    rw [← hjoined] at hsequence'
    have hissues : (more.structureReport catalog).issues =
        (store.integrityIssues catalog ++ first) ++
          (rest ++ (store.nodes.filter (·.kind = .function)).flatMap store.functionIssues) := by
      rw [structureReport, h.integrityIssues_eq hunique hkind hknown, hsequence',
        h.flatMap_functionIssues_eq hkind]
      simp
    refine ⟨_, .missingOperator before.kind after.kind after.id, _, ?_, hissues, rfl, rfl, ?_⟩
    · rw [structureReport, hsequence]
      simp
    · rw [← hissues]
      intro issue hissue hcode
      have hmem := mem_checkSequence_of_code hissue (by rw [hcode]; decide)
      rw [hsequence'] at hmem
      obtain ⟨n, hn, hnode⟩ := hothers issue hmem hcode
      rw [hnode]
      exact fun heq => id_ne_of_roots hunique hroots hn (Option.some.inj heq)

/-- **The fix of a broken connection works**: the operator finds its place, and from the report the
connection and the issue about it are gone, and nothing else. -/
theorem mends_of_mem_broken (hunique : (idsOf store.nodes).Nodup)
    (h : connection ∈ (store.structureReport catalog).broken) {symbol : String}
    (hsymbol : isOperator symbol = true) {fresh : String} (hunused : store.Unused fresh) :
    ∃ after, store.insertOperator connection.before connection.after (some symbol) fresh =
        .ok (.ofOperator fresh none (some symbol), after) ∧
      (store.structureReport catalog).Mends connection (after.structureReport catalog) := by
  obtain ⟨first, before, after, later, rest, rfl, hnodes, hroot, hbefore, hafter, hlater⟩ :=
    exists_of_mem_broken hunique h
  refine ⟨_, insertOperator_of_roots hunique hnodes hroot hlater hunused.1 (some symbol), ?_⟩
  have hgains : store.GainsRoot ⟨first ++ before :: .ofOperator fresh none (some symbol) :: rest⟩
      (.ofOperator fresh none (some symbol)) :=
    ⟨⟨first ++ [before], rest, by simp [hnodes], by simp⟩, rfl, hunused⟩
  have hknown : operatorIssues (.ofOperator fresh none (some symbol)) = [] := by
    simp [operatorIssues, Node.ofOperator, hsymbol]
  have hroots : store.roots = first.filter (·.parent.isNone) ++ before :: after :: later := by
    rw [roots, hnodes, List.filter_append, List.filter_cons_of_pos (by simp [hroot]), hlater]
  have hjoined : (Store.mk (first ++ before :: .ofOperator fresh none (some symbol) :: rest)).roots =
      first.filter (·.parent.isNone) ++ before :: .ofOperator fresh none (some symbol) ::
        after :: later := by
    rw [roots, List.filter_append, List.filter_cons_of_pos (by simp [hroot]),
      List.filter_cons_of_pos rfl, hlater]
  exact hgains.mends hunique rfl hknown hbefore hafter hroots hjoined

/-! ### All connections -/

/-- With no broken connection, nothing is wrong between two operands. -/
theorem code_ne_of_broken_eq_nil (h : (store.structureReport catalog).broken = []) {issue : Issue}
    (hissue : issue ∈ (store.structureReport catalog).issues) : issue.code ≠ "missing_operator" := by
  intro hcode
  have hmem := mem_checkSequence_of_code hissue (by rw [hcode]; decide)
  obtain ⟨pair, hpair, -⟩ := exists_of_missingOperator hmem hcode
  have hpairs : brokenPairs store.roots = [] := List.map_eq_nil_iff.mp h
  rw [hpairs] at hpair
  cases hpair

theorem Unused.of_perm {other : Store} {new : Node} {id : String} (h : store.Unused id)
    (hperm : other.nodes.Perm (new :: store.nodes)) (hid : new.id ≠ id) (hroot : new.parent = none) :
    other.Unused id := by
  constructor
  · rw [idsOf, (hperm.map _).mem_iff, List.map_cons, List.mem_cons, not_or]
    exact ⟨Ne.symm hid, h.1⟩
  · intro node hnode
    rcases List.mem_cons.mp (hperm.mem_iff.mp hnode) with rfl | hnode
    · simp [hroot]
    · exact h.2 node hnode

end Store

/-- A connection that is to be mended, with the symbol of the operator and the identifier for it. -/
structure Fix where
  connection : BrokenConnection
  symbol : String
  fresh : String

namespace Store

variable {store : Store} {catalog : Option Catalog}

/-- Mends one connection after the other. -/
def fixAll (store : Store) (fixes : List Fix) : Except EditError Store :=
  fixes.foldlM (fun store fix => (store.insertOperator fix.connection.before fix.connection.after
    (some fix.symbol) fix.fresh).map Prod.snd) store

/-- **All connections can be mended, in any order.** The issues about missing operators are gone then,
and the others are there in their order. -/
theorem fixAll_of_perm {fixes : List Fix} (hunique : (idsOf store.nodes).Nodup)
    (hall : (fixes.map (·.connection)).Perm (store.structureReport catalog).broken)
    (hfixes : ∀ fix ∈ fixes, isOperator fix.symbol = true ∧ store.Unused fix.fresh)
    (hfresh : (fixes.map (·.fresh)).Nodup) :
    ∃ after, store.fixAll fixes = .ok after ∧ (after.structureReport catalog).broken = [] ∧
      (after.structureReport catalog).issues =
        (store.structureReport catalog).issues.filter (·.code ≠ "missing_operator") := by
  induction fixes generalizing store with
  | nil =>
    have hbroken : (store.structureReport catalog).broken = [] := List.nil_perm.mp hall
    refine ⟨store, rfl, hbroken, (List.filter_eq_self.mpr fun issue hissue => ?_).symm⟩
    simpa using code_ne_of_broken_eq_nil hbroken hissue
  | cons fix rest ih =>
    obtain ⟨hsymbol, hunused⟩ := hfixes fix List.mem_cons_self
    obtain ⟨hnotin, hrest⟩ := List.nodup_cons.mp hfresh
    have hmem : fix.connection ∈ (store.structureReport catalog).broken :=
      hall.mem_iff.mp List.mem_cons_self
    obtain ⟨next, hinsert, hmends⟩ := mends_of_mem_broken hunique hmem hsymbol hunused
    obtain ⟨-, hperm⟩ := perm_of_insertOperator hinsert
    have hunique' : (idsOf next.nodes).Nodup := by
      rw [idsOf, (hperm.map _).nodup_iff, List.map_cons]
      exact List.nodup_cons.mpr ⟨hunused.1, hunique⟩
    have hothers : (rest.map (·.connection)).Perm (next.structureReport catalog).broken := by
      obtain ⟨earlier, later, hbefore, hafter, -⟩ := hmends.broken
      rw [hbefore, List.map_cons] at hall
      rw [hafter]
      exact (hall.trans List.perm_middle).cons_inv
    have hlater : ∀ other ∈ rest, isOperator other.symbol = true ∧ next.Unused other.fresh := by
      intro other hother
      obtain ⟨hsymbol, hunused⟩ := hfixes other (List.mem_cons_of_mem _ hother)
      refine ⟨hsymbol, hunused.of_perm hperm (fun heq => hnotin ?_) rfl⟩
      exact List.mem_map.mpr ⟨other, hother, heq.symm⟩
    obtain ⟨after, hfix, hnone, hkept⟩ := ih hunique' hothers hlater hrest
    refine ⟨after, ?_, hnone, ?_⟩
    · rw [fixAll, List.foldlM_cons, hinsert]
      exact hfix
    · obtain ⟨earlier, issue, later, hbefore, hafter, hcode, -⟩ := hmends.issues
      rw [hkept, hbefore, hafter, List.filter_append, List.filter_append,
        List.filter_cons_of_neg (by simp [hcode])]

/-- **Broken connections can be mended.** Every operator that is put between the operands of a broken
connection finds its place, and then the report is what it was without this connection and the issue
about it. So all connections can be mended one after the other, in any order. -/
theorem joins (store : Store) (catalog : Option Catalog) (hunique : (idsOf store.nodes).Nodup) :
    (∀ connection ∈ (store.structureReport catalog).broken, ∀ symbol, isOperator symbol = true →
      ∀ fresh, store.Unused fresh → ∃ after,
        store.insertOperator connection.before connection.after (some symbol) fresh =
            .ok (.ofOperator fresh none (some symbol), after) ∧
          (store.structureReport catalog).Mends connection (after.structureReport catalog)) ∧
      ∀ fixes : List Fix, (fixes.map (·.connection)).Perm (store.structureReport catalog).broken →
        (∀ fix ∈ fixes, isOperator fix.symbol = true ∧ store.Unused fix.fresh) →
        (fixes.map (·.fresh)).Nodup → ∃ after, store.fixAll fixes = .ok after ∧
          (after.structureReport catalog).broken = [] ∧
            (after.structureReport catalog).issues =
              (store.structureReport catalog).issues.filter (·.code ≠ "missing_operator") :=
  ⟨fun _ h _ hsymbol _ hunused => mends_of_mem_broken hunique h hsymbol hunused,
    fun _ hall hfixes hfresh => fixAll_of_perm hunique hall hfixes hfresh⟩

/-- A call, a reference and a value in a row. Between them in the list stand what is below the call, a
node whose parent is missing, and one that is its own parent. -/
def rowed : Store :=
  ⟨[.ofFunction "f" none (some "abs"), .ofGroup "g" (some "f") (some 0),
    .ofValue "x" (some "g") (some (.integer 1)), .ofReference "a" none (some "A"),
    .ofGroup "o" (some "gone") none, .ofGroup "c" (some "c") none,
    .ofValue "v" none (some (.integer 2))]⟩

theorem joins_rowed :
    (idsOf rowed.nodes).Nodup ∧ isOperator "+" = true ∧ rowed.Unused "n1" ∧ rowed.Unused "n2" ∧
      (rowed.structureReport none).broken = [⟨"f", "a"⟩, ⟨"a", "v"⟩] ∧
      (∃ after, rowed.insertOperator "f" "a" (some "+") "n1" =
          .ok (.ofOperator "n1" none (some "+"), after) ∧
        (rowed.structureReport none).Mends ⟨"f", "a"⟩ (after.structureReport none)) ∧
      ∃ after, rowed.fixAll [⟨⟨"a", "v"⟩, "+", "n1"⟩, ⟨⟨"f", "a"⟩, "+", "n2"⟩] = .ok after ∧
        (after.structureReport none).broken = [] ∧
          (after.structureReport none).issues =
            (rowed.structureReport none).issues.filter (·.code ≠ "missing_operator") := by
  have hunique : (idsOf rowed.nodes).Nodup := by decide
  have hplus : isOperator "+" = true := by decide
  have hfirst : rowed.Unused "n1" := ⟨by decide, by decide⟩
  have hsecond : rowed.Unused "n2" := ⟨by decide, by decide⟩
  have hbroken : (rowed.structureReport none).broken = [⟨"f", "a"⟩, ⟨"a", "v"⟩] := by decide
  obtain ⟨hone, hall⟩ := joins rowed none hunique
  refine ⟨hunique, hplus, hfirst, hsecond, hbroken, hone ⟨"f", "a"⟩ ?_ "+" hplus "n1" hfirst,
    hall _ ?_ ?_ ?_⟩
  · rw [hbroken]
    decide
  · rw [hbroken]
    decide
  · simp [hplus, hfirst, hsecond]
  · decide

end Store
end Formulary
