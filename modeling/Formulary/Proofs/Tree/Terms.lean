/-
# The forest of a formula

The nodes of terms are the list of a forest that mirrors the terms. It has their outline, it is regular
and linked, and no two of its nodes have one identifier, so that the forest and the sequences of the
store of a formula are those of its terms.

Key definitions: `Term.tree`, `Term.sequenceTrees`.
Key theorems: `Term.preorder_sequenceTrees`, `Term.nodup_sequenceNodes`, `Store.forest_ofTerms`,
`Store.sequences_ofTerms`.
-/
import Mathlib.Data.List.Nodup
import Formulary.Proofs.Store.Alike
import Formulary.Proofs.Term.Outline
import Formulary.Formula

namespace Formulary

theorem nodeId_injective {j k : Nat} (h : nodeId j = nodeId k) : j = k := by
  have hdigits : Nat.toDigits 10 j = Nat.toDigits 10 k := by
    have hlist := congrArg String.toList h
    rw [nodeId, nodeId, String.toList_append, String.toList_append] at hlist
    simpa [Nat.toString_eq_ofList_toDigits] using List.append_cancel_left hlist
  calc j = Nat.ofDigitChars 10 (Nat.toDigits 10 j) 0 := Nat.ofDigitChars_ten_toDigits.symm
    _ = Nat.ofDigitChars 10 (Nat.toDigits 10 k) 0 := by rw [hdigits]
    _ = k := Nat.ofDigitChars_ten_toDigits

namespace Term

open Formulary.Tree

mutual

/-- The tree of a term below a parent, where `k` identifiers are issued already. -/
def tree (parent : Option String) (k : Nat) : Term → Tree
  | reference _ id => .mk (.ofReference (nodeId (k + 1)) parent (some id)) []
  | operator _ symbol => .mk (.ofOperator (nodeId (k + 1)) parent (some symbol)) []
  | value _ number => .mk (.ofValue (nodeId (k + 1)) parent (some number)) []
  | call _ name _ arguments =>
    .mk (.ofFunction (nodeId (k + 1)) parent (some name))
      (argumentTrees (nodeId (k + 1)) 0 (k + 1) arguments)
  | group _ body =>
    .mk (.ofGroup (nodeId (k + 1)) parent none)
      (sequenceTrees (some (nodeId (k + 1))) (k + 1) body)

/-- The trees of a sequence. -/
def sequenceTrees (parent : Option String) (k : Nat) : List Term → List Tree
  | [] => []
  | term :: rest =>
    tree parent k term :: sequenceTrees parent (k + (nodes parent k term).length) rest

/-- The trees of the arguments of a call, from a slot on. -/
def argumentTrees (owner : String) (slot k : Nat) : List (List Term) → List Tree
  | [] => []
  | argument :: rest =>
    .mk (.ofGroup (nodeId (k + 1)) (some owner) (some slot))
        (sequenceTrees (some (nodeId (k + 1))) (k + 1) argument) ::
      argumentTrees owner (slot + 1)
        (k + 1 + (sequenceNodes (some (nodeId (k + 1))) (k + 1) argument).length) rest

end

mutual

theorem preorder_tree (parent : Option String) (k : Nat) : ∀ term : Term,
    (tree parent k term).preorder = nodes parent k term
  | reference _ _ => rfl
  | operator _ _ => rfl
  | value _ _ => rfl
  | call _ _ _ arguments => by
    rw [tree, preorder, nodes, preorder_argumentTrees _ _ _ arguments]
  | group _ body => by rw [tree, preorder, nodes, preorder_sequenceTrees _ _ body]

/-- The nodes of terms are the list of their trees. -/
theorem preorder_sequenceTrees (parent : Option String) (k : Nat) : ∀ terms : List Term,
    preorderAll (sequenceTrees parent k terms) = sequenceNodes parent k terms
  | [] => rfl
  | term :: rest => by
    rw [sequenceTrees, preorderAll, sequenceNodes, preorder_tree parent k term,
      preorder_sequenceTrees _ _ rest]

theorem preorder_argumentTrees (owner : String) (slot k : Nat) : ∀ arguments : List (List Term),
    preorderAll (argumentTrees owner slot k arguments) = argumentNodes owner slot k arguments
  | [] => rfl
  | argument :: rest => by
    rw [argumentTrees, preorderAll, preorder, argumentNodes, preorder_sequenceTrees _ _ argument,
      preorder_argumentTrees _ _ _ rest]

end

mutual

theorem outline_tree (parent : Option String) (k : Nat) : ∀ term : Term,
    (tree parent k term).outline = term.outline
  | reference _ _ => rfl
  | operator _ _ => rfl
  | value _ _ => rfl
  | call _ name _ arguments =>
    congrArg (Outline.call name) (argumentOutlines_argumentTrees _ _ _ arguments)
  | group _ body => congrArg Outline.group (outlines_sequenceTrees _ _ body)

/-- The trees of terms have their outlines. -/
theorem outlines_sequenceTrees (parent : Option String) (k : Nat) : ∀ terms : List Term,
    Tree.outlines (sequenceTrees parent k terms) = outlines terms
  | [] => rfl
  | term :: rest => by
    rw [sequenceTrees, Tree.outlines, outlines, outline_tree parent k term,
      outlines_sequenceTrees _ _ rest]

theorem argumentOutlines_argumentTrees (owner : String) (slot k : Nat) :
    ∀ arguments : List (List Term),
    Tree.argumentOutlines (argumentTrees owner slot k arguments) = argumentOutlines arguments
  | [] => rfl
  | argument :: rest => by
    rw [argumentTrees, Tree.argumentOutlines, argumentOutlines, outlines_sequenceTrees _ _ argument,
      argumentOutlines_argumentTrees _ _ _ rest]

end

mutual

theorem regular_tree (parent : Option String) (k : Nat) : ∀ term : Term,
    (tree parent k term).Regular
  | reference _ _ => ⟨rfl, rfl⟩
  | operator _ _ => ⟨rfl, rfl⟩
  | value _ _ => ⟨rfl, rfl⟩
  | call _ _ _ arguments => ⟨rfl, regular_argumentTrees _ _ _ arguments⟩
  | group _ body => ⟨rfl, regular_sequenceTrees _ _ body⟩

theorem regular_sequenceTrees (parent : Option String) (k : Nat) : ∀ terms : List Term,
    RegularAll (sequenceTrees parent k terms)
  | [] => trivial
  | term :: rest => ⟨regular_tree parent k term, regular_sequenceTrees _ _ rest⟩

theorem regular_argumentTrees (owner : String) (slot k : Nat) : ∀ arguments : List (List Term),
    RegularArguments slot (argumentTrees owner slot k arguments)
  | [] => trivial
  | argument :: rest =>
    ⟨rfl, rfl, regular_sequenceTrees _ _ argument, regular_argumentTrees _ _ _ rest⟩

end

mutual

theorem linked_tree (parent : Option String) (k : Nat) : ∀ term : Term,
    (tree parent k term).Linked parent
  | reference _ _ => ⟨rfl, trivial⟩
  | operator _ _ => ⟨rfl, trivial⟩
  | value _ _ => ⟨rfl, trivial⟩
  | call _ _ _ arguments => ⟨rfl, linked_argumentTrees _ _ _ arguments⟩
  | group _ body => ⟨rfl, linked_sequenceTrees _ _ body⟩

theorem linked_sequenceTrees (parent : Option String) (k : Nat) : ∀ terms : List Term,
    LinkedAll parent (sequenceTrees parent k terms)
  | [] => trivial
  | term :: rest => ⟨linked_tree parent k term, linked_sequenceTrees _ _ rest⟩

theorem linked_argumentTrees (owner : String) (slot k : Nat) : ∀ arguments : List (List Term),
    LinkedAll (some owner) (argumentTrees owner slot k arguments)
  | [] => trivial
  | argument :: rest =>
    ⟨⟨rfl, linked_sequenceTrees _ _ argument⟩, linked_argumentTrees _ _ _ rest⟩

end

/-! ### Identifiers -/

/-- The next `n` identifiers where `k` are issued already. -/
def issuedIds (k n : Nat) : List String :=
  (List.range' (k + 1) n).map nodeId

theorem issuedIds_succ (k n : Nat) : issuedIds k (n + 1) = nodeId (k + 1) :: issuedIds (k + 1) n :=
  rfl

theorem issuedIds_append (k m n : Nat) :
    issuedIds k (m + n) = issuedIds k m ++ issuedIds (k + m) n := by
  rw [issuedIds, issuedIds, issuedIds, ← List.map_append, Nat.add_right_comm, List.range'_append_1]

mutual

theorem ids_nodes (parent : Option String) (k : Nat) : ∀ term : Term,
    idsOf (nodes parent k term) = issuedIds k (nodes parent k term).length
  | reference _ _ => rfl
  | operator _ _ => rfl
  | value _ _ => rfl
  | call _ _ _ arguments => by
    have ih := ids_argumentNodes (nodeId (k + 1)) 0 (k + 1) arguments
    rw [nodes, List.length_cons, issuedIds_succ, ← ih]
    rfl
  | group _ body => by
    have ih := ids_sequenceNodes (some (nodeId (k + 1))) (k + 1) body
    rw [nodes, List.length_cons, issuedIds_succ, ← ih]
    rfl

/-- The nodes of terms get the next identifiers in their order. -/
theorem ids_sequenceNodes (parent : Option String) (k : Nat) : ∀ terms : List Term,
    idsOf (sequenceNodes parent k terms) = issuedIds k (sequenceNodes parent k terms).length
  | [] => rfl
  | term :: rest => by
    have hterm := ids_nodes parent k term
    have ih := ids_sequenceNodes parent (k + (nodes parent k term).length) rest
    rw [sequenceNodes, List.length_append, issuedIds_append, ← hterm, ← ih]
    exact List.map_append

theorem ids_argumentNodes (owner : String) (slot k : Nat) : ∀ arguments : List (List Term),
    idsOf (argumentNodes owner slot k arguments) =
      issuedIds k (argumentNodes owner slot k arguments).length
  | [] => rfl
  | argument :: rest => by
    have hbody := ids_sequenceNodes (some (nodeId (k + 1))) (k + 1) argument
    have ih := ids_argumentNodes owner (slot + 1)
      (k + 1 + (sequenceNodes (some (nodeId (k + 1))) (k + 1) argument).length) rest
    rw [argumentNodes, List.cons_append, List.length_cons, List.length_append, issuedIds_succ,
      issuedIds_append, ← hbody, ← ih]
    exact congrArg (List.cons _) List.map_append

end

/-- A node of terms has one of the identifiers that they get. -/
theorem exists_nodeId_of_mem {parent : Option String} {k : Nat} {terms : List Term} {node : Node}
    (h : node ∈ sequenceNodes parent k terms) :
    ∃ j ≤ k + (sequenceNodes parent k terms).length, node.id = nodeId j := by
  have hid : node.id ∈ idsOf (sequenceNodes parent k terms) := List.mem_map_of_mem h
  rw [ids_sequenceNodes, issuedIds] at hid
  obtain ⟨j, hj, hid⟩ := List.mem_map.mp hid
  have hlt := (List.mem_range'_1.mp hj).2
  exact ⟨j, by omega, hid.symm⟩

/-- **No two nodes of terms have one identifier.** -/
theorem nodup_sequenceNodes (parent : Option String) (k : Nat) (terms : List Term) :
    (idsOf (sequenceNodes parent k terms)).Nodup := by
  rw [ids_sequenceNodes, issuedIds]
  exact List.Nodup.map (fun _ _ => nodeId_injective) List.nodup_range'

mutual

theorem map_bare_nodes (parent : Option String) (k : Nat) : ∀ term : Term,
    (nodes parent k term).map Node.bare = nodes parent k term
  | reference _ _ => rfl
  | operator _ _ => rfl
  | value _ _ => rfl
  | call _ _ _ arguments => congrArg (List.cons _) (map_bare_argumentNodes _ _ _ arguments)
  | group _ body => congrArg (List.cons _) (map_bare_sequenceNodes _ _ body)

/-- The nodes of terms have only the field of their kind. -/
theorem map_bare_sequenceNodes (parent : Option String) (k : Nat) : ∀ terms : List Term,
    (sequenceNodes parent k terms).map Node.bare = sequenceNodes parent k terms
  | [] => rfl
  | term :: rest => by
    rw [sequenceNodes, List.map_append, map_bare_nodes parent k term,
      map_bare_sequenceNodes _ _ rest]

theorem map_bare_argumentNodes (owner : String) (slot k : Nat) : ∀ arguments : List (List Term),
    (argumentNodes owner slot k arguments).map Node.bare = argumentNodes owner slot k arguments
  | [] => rfl
  | argument :: rest => by
    rw [argumentNodes, List.cons_append, List.map_cons, List.map_append,
      map_bare_sequenceNodes _ _ argument, map_bare_argumentNodes _ _ _ rest]
    rfl

end

end Term

/-! ### The store of a formula -/

namespace Store

open Formulary.Tree

variable (k : Nat) (terms : List Term)

theorem ofTerms_eq : ofTerms k terms = ⟨preorderAll (Term.sequenceTrees none k terms)⟩ := by
  rw [ofTerms, Term.preorder_sequenceTrees]

theorem nodup_preorder_sequenceTrees :
    (idsOf (preorderAll (Term.sequenceTrees none k terms))).Nodup := by
  rw [Term.preorder_sequenceTrees]
  exact Term.nodup_sequenceNodes none k terms

/-- **The forest of the store of a formula mirrors its terms.** -/
theorem forest_ofTerms : (ofTerms k terms).forest = Term.sequenceTrees none k terms := by
  rw [ofTerms_eq]
  exact forest_preorder (Term.regular_sequenceTrees none k terms)
    (Term.linked_sequenceTrees none k terms) (nodup_preorder_sequenceTrees k terms)

/-- **The sequences of the store of a formula are those of the outline of its terms**, as far as
neighbours matter. -/
theorem sequences_ofTerms : ((ofTerms k terms).sequences).map (List.map Node.role) =
    (Outline.sequences (Term.outlines terms)).map (List.map Outline.role) := by
  have hregular := Term.regular_sequenceTrees none k terms
  rw [ofTerms_eq, sequences_preorder (Term.linked_sequenceTrees none k terms)
    (nodup_preorder_sequenceTrees k terms), ← Term.outlines_sequenceTrees none k terms,
    sequences_outlines hregular, List.map_map, List.map_map]
  exact List.map_congr_left fun ts _ => (map_role_outlines ts).symm

end Store
end Formulary
