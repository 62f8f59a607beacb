/-
# What inference can find

Inference finds four kinds of things: what is wrong with the alternation in a sequence, empty groups,
types that do not fit, and what is wrong with what a node holds. Of a forest in which nothing is wrong with
what the nodes hold, only the first three are left (`Tree.code_of_mem_inferSequence`).

Key definitions: `sequenceCodes`, `typeCodes`.
Key theorem: `Tree.code_of_mem_inferSequence`.
-/
import Formulary.Proofs.Structure.Valid
import Formulary.Proofs.Typing.Findings

namespace Formulary

open Store (operatorIssues referenceIssues)

/-- The codes of what is wrong with the alternation in a sequence. -/
def sequenceCodes : List String :=
  ["operators_without_operands", "missing_operator", "missing_operand"]

/-- The codes of what inference finds if every node holds what it should. -/
def typeCodes : List String :=
  sequenceCodes ++ ["empty_group", "type_mismatch"]

variable {issue : Issue}

theorem code_of_mem_missingOperands {nodes : List Node} {previous : Option Node}
    (h : issue ∈ missingOperands previous nodes) : issue.code = "missing_operand" := by
  induction nodes generalizing previous with
  | nil => cases h
  | cons node rest ih =>
    rw [missingOperands] at h
    rcases List.mem_append.mp h with h | h
    · split at h
      · rcases List.mem_append.mp h with h | h
        all_goals
          split at h
          · cases h
          · obtain rfl := List.mem_singleton.mp h
            rfl
      · cases h
    · exact ih h

theorem code_of_mem_checkSequence {nodes : List Node} (h : issue ∈ checkSequence nodes) :
    issue.code ∈ sequenceCodes := by
  have hoperator : "missing_operator" ∈ sequenceCodes := by decide
  have hoperand : "missing_operand" ∈ sequenceCodes := by decide
  unfold checkSequence at h
  split at h
  · rcases List.mem_cons.mp h with rfl | h
    · exact List.mem_cons_self
    · obtain ⟨pair, -, rfl⟩ := List.mem_map.mp h
      exact hoperator
  · rcases List.mem_append.mp h with h | h
    · obtain ⟨pair, -, rfl⟩ := List.mem_map.mp h
      exact hoperator
    · rw [code_of_mem_missingOperands h]
      exact hoperand

/-! ### Types that do not fit -/

theorem code_of_mem_operatorMismatches {family : Operator.Family} {symbol id : String}
    {left right : DataType} (h : issue ∈ operatorMismatches family symbol left right id) :
    issue.code = "type_mismatch" := by
  simp only [operatorMismatches, operandMismatches, List.mem_append, List.mem_ite_nil_left,
    List.mem_ite_nil_right, List.mem_singleton] at h
  rcases h with (⟨-, rfl⟩ | ⟨-, rfl⟩) | ⟨-, rfl⟩ <;> rfl

theorem code_of_mem_argumentMismatches {name : String} {expected : DataType} {id : Option String}
    {place : Nat} {types : List DataType}
    (h : issue ∈ argumentMismatches name expected id place types) : issue.code = "type_mismatch" := by
  induction types generalizing place with
  | nil => cases h
  | cons actual rest ih =>
    simp only [argumentMismatches, List.mem_append, List.mem_ite_nil_left, List.mem_singleton] at h
    rcases h with ⟨-, rfl⟩ | h
    · rfl
    · exact ih h

theorem code_of_mem_functionTyping {signature : Signature} {types : List DataType}
    {id : Option String} (h : issue ∈ (functionTyping signature types id).2) :
    issue.code = "type_mismatch" := by
  unfold functionTyping at h
  split at h
  · exact code_of_mem_argumentMismatches h
  · exact code_of_mem_argumentMismatches h
  · cases types with
    | nil => cases h
    | cons actual rest =>
      simp only [List.mem_ite_nil_left, List.mem_singleton] at h
      rw [h.2]
      rfl
  · cases h
  · simp only [conditionalTyping, List.mem_append, List.mem_ite_nil_left, List.mem_ite_nil_right,
      List.mem_singleton] at h
    rcases h with ⟨-, rfl⟩ | ⟨-, rfl⟩ <;> rfl

/-- An operator that is known has operands that do not fit, or nothing is wrong with it. -/
theorem code_of_mem_operatorTyping {node : Node} {left right : DataType}
    (hkind : node.kind = .operator) (hknown : operatorIssues node = [])
    (h : issue ∈ (operatorTyping node.operator left right node.id).2) :
    issue.code = "type_mismatch" := by
  obtain ⟨symbol, hsymbol, hoperator⟩ := Store.operatorIssues_eq_nil_iff.mp hknown hkind
  obtain ⟨family, hfamily⟩ := Option.isSome_iff_exists.mp hoperator
  rw [hsymbol, operatorTyping] at h
  simp only [hfamily] at h
  exact code_of_mem_operatorMismatches h

theorem code_of_mem_foldOperators {types : List (String × DataType)} {nodes : List Node}
    {previous : Option Node} {sofar : Option DataType} (hknown : ∀ n ∈ nodes, operatorIssues n = [])
    (h : issue ∈ (Typed.foldOperators types previous sofar nodes).2.1) :
    issue.code = "type_mismatch" := by
  induction nodes generalizing previous sofar with
  | nil => cases h
  | cons node rest ih =>
    have hrest := fun n hn => hknown n (List.mem_cons_of_mem node hn)
    rw [Typed.foldOperators] at h
    split at h
    · next hkind =>
      rcases List.mem_append.mp h with h | h
      · exact code_of_mem_operatorTyping hkind (hknown node List.mem_cons_self) h
      · exact ih hrest h
    · exact ih hrest h

/-! ### Forests -/

theorem contentIssues_eq_nil_iff {catalog : Catalog} {node : Node} :
    contentIssues catalog node = [] ↔ operatorIssues node = [] ∧
      referenceIssues (some catalog) node = [] ∧ calleeIssues node = [] := by
  rw [contentIssues, List.append_eq_nil_iff, List.append_eq_nil_iff, and_assoc]

theorem mem_typeCodes_of_mismatch (h : issue.code = "type_mismatch") : issue.code ∈ typeCodes := by
  rw [h]
  decide

theorem code_of_mem_sequence {nodes : List Node} {operands : List (Node × Typed)}
    (hknown : ∀ n ∈ nodes, operatorIssues n = [])
    (hoperands : ∀ o ∈ operands, ∀ issue ∈ o.2.issues, issue.code ∈ typeCodes)
    (h : issue ∈ (Typed.sequence nodes operands).issues) : issue.code ∈ typeCodes := by
  rcases List.mem_append.mp h with h | h
  · rcases List.mem_append.mp h with h | h
    · exact List.mem_append_left _ (code_of_mem_checkSequence h)
    · obtain ⟨o, ho, h⟩ := List.mem_flatMap.mp h
      exact hoperands o ho issue h
  · exact mem_typeCodes_of_mismatch (code_of_mem_foldOperators hknown h)

/-- A reference to an attribute of the catalog has no issue. -/
theorem issues_reference_of_known {catalog : Catalog} {node : Node} (hkind : node.kind = .reference)
    (h : referenceIssues (some catalog) node = []) : (Typed.reference catalog node).issues = [] := by
  obtain ⟨id, hid, hne, hlookup⟩ := Store.referenceIssues_eq_nil_iff.mp h hkind
  obtain ⟨found, hfound⟩ := Option.isSome_iff_exists.mp (hlookup catalog rfl)
  simp [Typed.reference, hid, hne, hfound]

theorem calleeIssues_eq_nil_iff {node : Node} : calleeIssues node = [] ↔
    (node.kind = .function → (node.function.bind Signature.find?).isSome = true) := by
  by_cases hkind : node.kind = .function
  · cases hsignature : node.function.bind Signature.find? <;> simp [calleeIssues, hkind, hsignature]
  · simp [calleeIssues, hkind]

/-- A function that is known has a signature. -/
theorem exists_signature {node : Node} (hkind : node.kind = .function) (h : calleeIssues node = []) :
    ∃ signature, node.function.bind Signature.find? = some signature :=
  Option.isSome_iff_exists.mp (calleeIssues_eq_nil_iff.mp h hkind)

theorem code_of_mem_call {node : Node} {arguments : List (Node × Typed)}
    (hkind : node.kind = .function) (hknown : calleeIssues node = [])
    (harguments : ∀ o ∈ arguments, ∀ issue ∈ o.2.issues, issue.code ∈ typeCodes)
    (h : issue ∈ (Typed.call node arguments).issues) : issue.code ∈ typeCodes := by
  obtain ⟨signature, hsignature⟩ := exists_signature hkind hknown
  unfold Typed.call at h
  simp only [hsignature] at h
  rcases List.mem_append.mp h with h | h
  · obtain ⟨o, ho, h⟩ := List.mem_flatMap.mp h
    exact harguments o ho issue h
  · exact mem_typeCodes_of_mismatch (code_of_mem_functionTyping h)

namespace Tree

variable {catalog : Catalog}

theorem operatorIssues_of_mem {ts : List Tree}
    (h : ∀ n ∈ preorderAll ts, contentIssues catalog n = []) :
    ∀ n ∈ ts.map node, operatorIssues n = [] := fun n hn =>
  (contentIssues_eq_nil_iff.mp (h n (map_node_subset ts hn))).1

mutual

theorem code_of_mem_infer : ∀ {t : Tree}, (∀ n ∈ t.preorder, contentIssues catalog n = []) →
    ∀ issue ∈ (infer catalog t).issues, issue.code ∈ typeCodes
  | mk node children, h => by
    intro issue hissue
    obtain ⟨-, hreference, hcallee⟩ := contentIssues_eq_nil_iff.mp (h node List.mem_cons_self)
    have hbelow : ∀ n ∈ preorderAll children, contentIssues catalog n = [] :=
      fun n hn => h n (List.mem_cons_of_mem _ hn)
    rw [infer] at hissue
    split at hissue
    · cases hissue
    · next hkind =>
      have hissue : issue ∈ (Typed.reference catalog node).issues := hissue
      rw [issues_reference_of_known hkind hreference] at hissue
      cases hissue
    · next hkind => exact code_of_mem_call hkind hcallee (code_of_mem_inferArguments hbelow) hissue
    · have hsequence : ∀ issue ∈ (Typed.sequence (children.map Tree.node)
          (inferOperands catalog children)).issues, issue.code ∈ typeCodes := fun issue =>
        code_of_mem_sequence (operatorIssues_of_mem hbelow) (code_of_mem_inferOperands hbelow)
      split at hissue
      · rcases List.mem_cons.mp hissue with rfl | hissue
        · show "empty_group" ∈ typeCodes
          decide
        · exact hsequence issue hissue
      · exact hsequence issue hissue
    · cases hissue

theorem code_of_mem_inferOperands : ∀ {ts : List Tree},
    (∀ n ∈ preorderAll ts, contentIssues catalog n = []) →
    ∀ o ∈ inferOperands catalog ts, ∀ issue ∈ o.2.issues, issue.code ∈ typeCodes
  | [], _ => fun _ ho => by cases ho
  | t :: rest, h => by
    intro o ho
    have hrest := code_of_mem_inferOperands fun n hn => h n (List.mem_append_right _ hn)
    rw [inferOperands] at ho
    split at ho
    · rcases List.mem_cons.mp ho with rfl | ho
      · exact code_of_mem_infer fun n hn => h n (List.mem_append_left _ hn)
      · exact hrest o ho
    · exact hrest o ho

theorem code_of_mem_inferArguments : ∀ {ts : List Tree},
    (∀ n ∈ preorderAll ts, contentIssues catalog n = []) →
    ∀ o ∈ inferArguments catalog ts, ∀ issue ∈ o.2.issues, issue.code ∈ typeCodes
  | [], _ => fun _ ho => by cases ho
  | mk group children :: rest, h => by
    intro o ho
    rw [inferArguments] at ho
    rcases List.mem_cons.mp ho with rfl | ho
    · have hbelow : ∀ n ∈ preorderAll children, contentIssues catalog n = [] :=
        fun n hn => h n (List.mem_append_left _ (List.mem_cons_of_mem _ hn))
      exact fun issue hissue => code_of_mem_sequence (operatorIssues_of_mem hbelow)
        (code_of_mem_inferOperands hbelow) hissue
    · exact code_of_mem_inferArguments (fun n hn => h n (List.mem_append_right _ hn)) o ho

end

/-- **What inference finds in a forest in which nothing is wrong with what the nodes hold.** -/
theorem code_of_mem_inferSequence {ts : List Tree}
    (h : ∀ n ∈ preorderAll ts, contentIssues catalog n = []) {issue : Issue}
    (hissue : issue ∈ (inferSequence catalog ts).issues) : issue.code ∈ typeCodes :=
  code_of_mem_sequence (operatorIssues_of_mem h) (code_of_mem_inferOperands h) hissue

/-- No reference, function or operator is unknown then. -/
example : ∀ code ∈ typeCodes,
    code ∉ ["unresolved_attribute", "unknown_function", "unknown_operator"] := by decide

/-! ### What inference finds in sequences -/

mutual

/-- An operand reports what is wrong with the sequences inside it. -/
theorem mem_issues_infer {issue : Issue} : ∀ {t : Tree}, t.Regular → ∀ q ∈ t.inner,
    issue ∈ checkSequence (q.map node) → t.node.isOperand = true ∧ issue ∈ (infer catalog t).issues
  | mk n children, h, q, hq, hissue => by
    unfold Regular at h
    unfold inner at hq
    unfold infer
    split at h
    · next hkind => simp [hkind, h.2, innerAll] at hq
    · next hkind => simp [hkind, h.2, innerAll] at hq
    · next hkind => simp [hkind, h.2, innerAll] at hq
    · next hkind =>
      rw [if_neg (by simp [hkind])] at hq
      obtain ⟨o, ho, hmem⟩ := mem_issues_inferArguments h.2 q hq hissue
      have harguments : issue ∈ (inferArguments catalog children).flatMap (·.2.issues) :=
        List.mem_flatMap.mpr ⟨o, ho, hmem⟩
      refine ⟨by simp [Tree.node, Node.isOperand, Kind.isOperand, hkind], ?_⟩
      simp only [hkind, Typed.recordAs, Typed.call]
      split
      · exact List.mem_append_left _ harguments
      · exact List.mem_append_left _ harguments
    · next hkind =>
      rw [if_pos hkind] at hq
      have hsequence : issue ∈
          (Typed.sequence (children.map node) (inferOperands catalog children)).issues :=
        mem_issues_inferSequence h.2 q hq hissue
      refine ⟨by simp [Tree.node, Node.isOperand, Kind.isOperand, hkind], ?_⟩
      simp only [hkind, Typed.recordAs]
      split
      · exact List.mem_cons_of_mem _ hsequence
      · exact hsequence

/-- **Inference reports what is wrong with a sequence and with those inside it.** -/
theorem mem_issues_inferSequence {issue : Issue} : ∀ {ts : List Tree}, RegularAll ts →
    ∀ q ∈ sequences ts, issue ∈ checkSequence (q.map node) →
      issue ∈ (inferSequence catalog ts).issues
  | ts, h, q, hq, hissue => by
    rcases List.mem_cons.mp hq with rfl | hq
    · exact List.mem_append_left _ (List.mem_append_left _ hissue)
    · obtain ⟨o, ho, hmem⟩ := mem_issues_inferOperands h q hq hissue
      exact List.mem_append_left _ (List.mem_append_right _ (List.mem_flatMap.mpr ⟨o, ho, hmem⟩))

theorem mem_issues_inferOperands {issue : Issue} : ∀ {ts : List Tree}, RegularAll ts →
    ∀ q ∈ innerAll ts, issue ∈ checkSequence (q.map node) →
      ∃ o ∈ inferOperands catalog ts, issue ∈ o.2.issues
  | t :: rest, h, q, hq, hissue => by
    rw [inferOperands]
    rcases List.mem_append.mp hq with hq | hq
    · obtain ⟨hoperand, hmem⟩ := mem_issues_infer h.1 q hq hissue
      rw [if_pos hoperand]
      exact ⟨_, List.mem_cons_self, hmem⟩
    · obtain ⟨o, ho, hmem⟩ := mem_issues_inferOperands h.2 q hq hissue
      split
      · exact ⟨o, List.mem_cons_of_mem _ ho, hmem⟩
      · exact ⟨o, ho, hmem⟩

theorem mem_issues_inferArguments {issue : Issue} : ∀ {slot : Nat} {ts : List Tree},
    RegularArguments slot ts → ∀ q ∈ innerAll ts, issue ∈ checkSequence (q.map node) →
      ∃ o ∈ inferArguments catalog ts, issue ∈ o.2.issues
  | slot, mk group children :: rest, h, q, hq, hissue => by
    obtain ⟨hkind, -, hchildren, hrest⟩ := h
    rw [inferArguments]
    rcases List.mem_append.mp hq with hq | hq
    · rw [inner, if_pos hkind] at hq
      exact ⟨_, List.mem_cons_self, mem_issues_inferSequence hchildren q hq hissue⟩
    · obtain ⟨o, ho, hmem⟩ := mem_issues_inferArguments hrest q hq hissue
      exact ⟨o, List.mem_cons_of_mem _ ho, hmem⟩

end

/-- If inference finds nothing wrong with a sequence, no sequence has anything wrong with it. -/
theorem checkSequence_of_inferSequence {ts : List Tree} (hregular : RegularAll ts)
    (h : ∀ issue ∈ (inferSequence catalog ts).issues, issue.code ∉ sequenceCodes) :
    ∀ q ∈ sequences ts, checkSequence (q.map node) = [] := fun q hq =>
  List.eq_nil_iff_forall_not_mem.mpr fun issue hissue =>
    h issue (mem_issues_inferSequence hregular q hq hissue) (code_of_mem_checkSequence hissue)

end Tree
end Formulary
