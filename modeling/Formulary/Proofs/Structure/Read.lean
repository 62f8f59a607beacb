/-
# What can be wrong with a formula that was read

The store of a formula that was read is listed in reading order, and its nodes hold what they should:
operators and functions are known, and references refer to attributes of the catalog. So there is little
that the checks can find: what is wrong with the alternation of operands and operators, calls with another
number of arguments than the function takes, empty groups, and types that do not fit
(`Formula.listed_of_read`).

Key definitions: `shapeCodes`.
Key theorems: `Formula.contentIssues_of_read`, `Store.Listed.code_of_mem_structureReport`,
`Formula.listed_of_read`.
-/
import Formulary.Proofs.RoundTrip.Layout
import Formulary.Proofs.Store.Listed
import Formulary.Proofs.Term.Sites
import Formulary.Proofs.Typing.Codes

namespace Formulary

open Term

/-- The codes of what can be wrong with the shape of a formula that was read. -/
def shapeCodes : List String :=
  sequenceCodes ++ ["arity_mismatch", "invalid_argument_index"]

/-- Whether an issue stands beside another one, about the same node, of a call with another number of
arguments than the function takes. -/
def Issue.IsBesideMismatch (issue : Issue) (issues : List Issue) : Prop :=
  ∃ other ∈ issues, other.code = "arity_mismatch" ∧ other.node? = issue.node?

theorem exists_mem_of_forall₂ {α β : Type} {R : α → β → Prop} {l : List α} {m : List β}
    (h : List.Forall₂ R l m) {a : α} (ha : a ∈ l) : ∃ b ∈ m, R a b := by
  induction h with
  | nil => cases ha
  | cons hab _ ih =>
    rcases List.mem_cons.mp ha with rfl | ha
    · exact ⟨_, List.mem_cons_self, hab⟩
    · obtain ⟨b, hb, hrel⟩ := ih ha
      exact ⟨b, List.mem_cons_of_mem _ hb, hrel⟩

namespace Store

variable {store : Store} {catalog : Catalog} {issue : Issue}

/-! ### The shape of a listed store -/

/-- If the slots of a call are the first ones, all that can be wrong is their number. -/
theorem slotIssues_firstSlots (signature : Signature) (id : String) (count : Nat) :
    slotIssues signature id (firstSlots count) =
      match signature.arity with
      | .variadic => []
      | .exactly expected =>
        (if count = expected then [] else [.arityMismatch signature.name expected count id]) ++
          ((firstSlots count).filter fun slot => slot < 0 || (expected : Int) ≤ slot).map fun slot =>
            .noSuchArgument signature.name slot id := by
  have hnodup := nodup_firstSlots count
  rw [slotIssues, repeated_eq_nil_iff.mpr hnodup, eraseDups_of_nodup hnodup, length_firstSlots]
  cases signature.arity with
  | variadic => exact if_pos rfl
  | exactly expected => rfl

theorem code_of_mem_slotIssues {signature : Signature} {id : String} {count : Nat}
    (h : issue ∈ slotIssues signature id (firstSlots count)) :
    issue.code ∈ shapeCodes ∧ (issue.code = "invalid_argument_index" →
      issue.IsBesideMismatch (slotIssues signature id (firstSlots count))) := by
  rw [slotIssues_firstSlots] at h ⊢
  cases harity : signature.arity with
  | variadic =>
    rw [harity] at h
    cases h
  | exactly expected =>
    simp only [harity] at h ⊢
    rcases List.mem_append.mp h with h | h
    · split at h
      · cases h
      · obtain rfl := List.mem_singleton.mp h
        have hcode : "arity_mismatch" ∈ shapeCodes := by decide
        have hne : "arity_mismatch" ≠ "invalid_argument_index" := by decide
        exact ⟨hcode, fun heq => absurd heq hne⟩
    · obtain ⟨slot, hslot, rfl⟩ := List.mem_map.mp h
      obtain ⟨hslot, houtside⟩ := List.mem_filter.mp hslot
      obtain ⟨hzero, hlt⟩ := mem_firstSlots.mp hslot
      -- A slot that the function does not have is one too many.
      have hcount : count ≠ expected := by
        simp only [Bool.or_eq_true, decide_eq_true_eq] at houtside
        omega
      have hcode : "invalid_argument_index" ∈ shapeCodes := by decide
      refine ⟨hcode, fun _ => ⟨.arityMismatch signature.name expected count id, ?_, rfl, rfl⟩⟩
      rw [if_neg hcount]
      exact List.mem_append_left _ (List.mem_singleton_self _)

/-- The slots of a function are those of its arguments in their order. -/
theorem Listed.slotsOf_eq (h : store.Listed) {node : Node} (hnode : node ∈ store.nodes)
    (hkind : node.kind = .function) : ∃ count, store.slotsOf node.id = firstSlots count := by
  obtain ⟨count, hslots⟩ := h.slots node hnode hkind
  refine ⟨count, (eq_firstSlots_iff (pairwise_slotsOf node.id)).mpr ?_⟩
  have hperm := slotsOf_perm (h.arguments node hnode hkind)
  have hfilter : (store.childrenOf node.id).filterMap (·.slot) = firstSlots count := by
    have hmap : (store.childrenOf node.id).filterMap (·.slot) =
        ((store.childrenOf node.id).map (·.slot)).filterMap id := by rw [List.filterMap_map]; rfl
    rw [hmap, hslots]
    simp
  rwa [hfilter] at hperm

/-- **What can be wrong with the shape of a listed store whose nodes hold what they should.** -/
theorem Listed.code_of_mem_structureReport (h : store.Listed)
    (hnamed : ∀ node ∈ store.nodes, node.id ≠ "")
    (hknown : ∀ node ∈ store.nodes, contentIssues catalog node = [])
    (hissue : issue ∈ (store.structureReport (some catalog)).issues) :
    issue.code ∈ shapeCodes ∧ (issue.code = "invalid_argument_index" →
      issue.IsBesideMismatch (store.structureReport (some catalog)).issues) := by
  have hintegrity : store.integrityIssues (some catalog) = [] := by
    refine List.append_eq_nil_iff.mpr ⟨duplicateIds_eq_nil_iff.mpr h.unique,
      List.flatMap_eq_nil_iff.mpr fun node hnode => ?_⟩
    obtain ⟨hoperator, hreference, -⟩ := contentIssues_eq_nil_iff.mp (hknown node hnode)
    rw [h.parentIssues_eq_nil hnode, h.argumentIssues_eq_nil hnamed hnode, hoperator, hreference]
    rfl
  have hissues : (store.structureReport (some catalog)).issues = checkSequence store.roots ++
      (store.nodes.filter (·.kind = .function)).flatMap store.functionIssues := by
    rw [structureReport, hintegrity, List.nil_append]
  rw [hissues] at hissue ⊢
  rcases List.mem_append.mp hissue with hissue | hissue
  · have hcode := code_of_mem_checkSequence hissue
    refine ⟨List.mem_append_left _ hcode, fun heq => ?_⟩
    rw [heq] at hcode
    exact absurd hcode (by decide)
  · obtain ⟨node, hnode, hissue⟩ := List.mem_flatMap.mp hissue
    obtain ⟨hmem, hkind⟩ := List.mem_filter.mp hnode
    have hkind : node.kind = .function := of_decide_eq_true hkind
    obtain ⟨signature, hsignature⟩ := exists_signature hkind
      (contentIssues_eq_nil_iff.mp (hknown node hmem)).2.2
    obtain ⟨count, hslots⟩ := h.slotsOf_eq hmem hkind
    have hfunction : store.functionIssues node = slotIssues signature node.id (firstSlots count) := by
      rw [functionIssues, hsignature, hslots]
    rw [hfunction] at hissue
    obtain ⟨hcode, hbeside⟩ := code_of_mem_slotIssues hissue
    refine ⟨hcode, fun heq => ?_⟩
    obtain ⟨other, hother, hrest⟩ := hbeside heq
    refine ⟨other, List.mem_append_right _ (List.mem_flatMap.mpr ⟨node, hnode, ?_⟩), hrest⟩
    rwa [hfunction]

end Store

/-! ### The nodes of a formula that was read -/

/-- A node that is what a site says, with the token of the site among the given ones, holds what it
should. -/
theorem Site.Describes.contentIssues_eq_nil {catalog : Catalog} {node : Node} {site : Site}
    (h : site.Describes node)
    (htoken : site.isNamed = true → ∃ t, t.lexeme.Known ∧ site.IsOf catalog t)
    (hids : ∀ a ∈ catalog, a.id ≠ "") : contentIssues catalog node = [] := by
  rw [contentIssues_eq_nil_iff, Store.operatorIssues_eq_nil_iff, Store.referenceIssues_eq_nil_iff,
    calleeIssues_eq_nil_iff]
  cases site with
  | reference position id =>
    obtain ⟨t, -, -, name, found, -, hfound, rfl⟩ := htoken rfl
    have hmem : found ∈ catalog := List.mem_of_find?_eq_some hfound
    refine ⟨by simp [h.1], fun _ => ⟨found.id, h.2, hids found hmem, fun c hc => ?_⟩, by simp [h.1]⟩
    obtain rfl := Option.some.inj hc
    exact Catalog.isSome_lookup?_of_mem hmem
  | operator position symbol =>
    obtain ⟨⟨l, place⟩, hknown, -, hword⟩ := htoken rfl
    refine ⟨fun _ => ⟨symbol, h.2, ?_⟩, by simp [h.1], by simp [h.1]⟩
    rcases hword with ⟨-, hoperator⟩ | rfl
    · exact hoperator
    · exact hknown.1
  | value position number => simp [h.1]
  | call position name opening =>
    obtain ⟨⟨l, place⟩, hknown, -, rfl⟩ := htoken rfl
    exact ⟨by simp [h.1], by simp [h.1], fun _ => by rw [h.2]; exact hknown⟩
  | group opening => simp [h.1]
  | argument => simp [h.1]

namespace Formula

variable {limit : Int} {catalog : Catalog} {text : String} {formula : Formula}

/-- **What the nodes of a formula hold is known.** -/
theorem contentIssues_of_read (h : read limit catalog text = .ok formula)
    (hids : ∀ a ∈ catalog, a.id ≠ "") {k : Nat} {node : Node}
    (hnode : node ∈ (formula.store k).nodes) : contentIssues catalog node = [] := by
  obtain ⟨site, hsite, hdescribes⟩ :=
    exists_mem_of_forall₂ (sequenceSites_nodes none k formula.terms) hnode
  refine hdescribes.contentIssues_eq_nil (fun hnamed => ?_) hids
  obtain ⟨t, ht, hof⟩ := exists_mem_of_forall₂ (yields_of_readTerms (readTerms_of_read h).2).named.flip
    (List.mem_filter.mpr ⟨hsite, hnamed⟩)
  exact ⟨t, known_of_mem_tokens t (List.mem_filter.mp ht).1, hof⟩

/-- No identifier that is issued is empty. -/
theorem id_ne_empty {k : Nat} {node : Node} (hnode : node ∈ (formula.store k).nodes) :
    node.id ≠ "" := by
  obtain ⟨j, -, hid⟩ := exists_nodeId_of_mem hnode
  rw [hid, nodeId]
  simp

/-- **The store of a formula that was read is listed in reading order, and little can be wrong with
it**: of its shape the alternation and the numbers of arguments, and of its types no name. -/
theorem listed_of_read (h : read limit catalog text = .ok formula)
    (hids : ∀ a ∈ catalog, a.id ≠ "") (k : Nat) :
    (formula.store k).Listed ∧
      (∀ issue ∈ ((formula.store k).structureReport (some catalog)).issues,
        issue.code ∈ shapeCodes ∧ (issue.code = "invalid_argument_index" →
          issue.IsBesideMismatch ((formula.store k).structureReport (some catalog)).issues)) ∧
      ∀ issue ∈ ((formula.store k).inferTypes catalog).issues, issue.code ∈ typeCodes := by
  have hknown : ∀ node ∈ (formula.store k).nodes, contentIssues catalog node = [] :=
    fun _ hnode => contentIssues_of_read h hids hnode
  have hlisted : (formula.store k).Listed := Store.listed_ofTerms k formula.terms
  refine ⟨hlisted, fun issue hissue => ?_, fun issue hissue => ?_⟩
  · exact hlisted.code_of_mem_structureReport (fun _ => id_ne_empty) hknown hissue
  · have hforest : ∀ node ∈ Tree.preorderAll (formula.store k).forest,
        contentIssues catalog node = [] := fun node hnode => hknown node (hlisted.preorder ▸ hnode)
    exact Tree.code_of_mem_inferSequence hforest hissue

theorem pieces_twofold : pieces "NOT(\x7bA\x7d,\x7bA\x7d".toList =
    [.lexeme (.function "NOT"), .lexeme .opening, .lexeme (.reference "A"), .lexeme .comma,
      .lexeme (.reference "A")] := by
  have hname : '}' ∉ "A".toList := by decide
  have hspaced : Spaced [.lexeme (.function "NOT"), .lexeme .opening, .lexeme (.reference "A"),
      .lexeme .comma, .lexeme (.reference "A")] :=
    ⟨rfl, by decide, trivial, by decide, hname, by decide, trivial, by decide, hname, by decide,
      trivial⟩
  exact pieces_layout hspaced

/-- A call of `NOT` with two arguments, which is not closed. -/
def twofold : Formula where
  scan := {
    tokens := [⟨.function "NOT", 0⟩, ⟨.opening, 3⟩, ⟨.reference "A", 4⟩, ⟨.comma, 7⟩,
      ⟨.reference "A", 8⟩]
    diagnostics := []
    finish := 11 }
  terms := [.call 0 "NOT" (some ⟨3, none⟩) [[.reference 4 "a"], [.reference 8 "a"]]]
  notes := [⟨.unclosedCall "NOT", 3⟩]

/-- The second slot is reported beside the number of arguments. -/
theorem listed_twofold : read 1 [⟨"a", "A", none⟩] "NOT(\x7bA\x7d,\x7bA\x7d" = .ok twofold ∧
    (∀ a ∈ ([⟨"a", "A", none⟩] : Catalog), a.id ≠ "") ∧ (twofold.store 0).Listed ∧
    ((twofold.store 0).structureReport (some [⟨"a", "A", none⟩])).issues =
      [.arityMismatch "NOT" 1 2 "node_1", .noSuchArgument "NOT" 1 "node_1"] ∧
    ∀ issue ∈ ((twofold.store 0).inferTypes [⟨"a", "A", none⟩]).issues, issue.code ∈ typeCodes := by
  have hread : read 1 [⟨"a", "A", none⟩] "NOT(\x7bA\x7d,\x7bA\x7d" = .ok twofold := by
    have hscan : Scan.ofText "NOT(\x7bA\x7d,\x7bA\x7d" = twofold.scan := by
      rw [Scan.ofText, pieces_twofold]
      rfl
    rw [read_eq, hscan]
    rfl
  have hids : ∀ a ∈ ([⟨"a", "A", none⟩] : Catalog), a.id ≠ "" := by decide
  obtain ⟨hlisted, -, htypes⟩ := listed_of_read hread hids 0
  exact ⟨hread, hids, hlisted, by decide, htypes⟩

end Formula
end Formulary
