/-
# From terms to nodes

The nodes of a sequence of terms are listed in reading order, each parent before its children, and
get consecutive identifiers in that order. Each argument of a call becomes a group with the number
of the argument as its slot.

Key definitions: `Term.nodes`, `Term.sequenceNodes`, `Store.ofTerms`.
-/
import Formulary.Session
import Formulary.Term.Basic

namespace Formulary
namespace Term

mutual

/-- The nodes of a term below a parent, where `k` identifiers are issued already. -/
def nodes (parent : Option String) (k : Nat) : Term → List Node
  | reference _ id => [.ofReference (nodeId (k + 1)) parent (some id)]
  | operator _ symbol => [.ofOperator (nodeId (k + 1)) parent (some symbol)]
  | value _ number => [.ofValue (nodeId (k + 1)) parent (some number)]
  | call _ name _ arguments =>
    .ofFunction (nodeId (k + 1)) parent (some name) ::
      argumentNodes (nodeId (k + 1)) 0 (k + 1) arguments
  | group _ body =>
    .ofGroup (nodeId (k + 1)) parent none :: sequenceNodes (some (nodeId (k + 1))) (k + 1) body

/-- The nodes of a sequence below a parent. -/
def sequenceNodes (parent : Option String) (k : Nat) : List Term → List Node
  | [] => []
  | term :: rest =>
    let first := nodes parent k term
    first ++ sequenceNodes parent (k + first.length) rest

/-- The nodes of the arguments of a call, from a slot on. -/
def argumentNodes (owner : String) (slot k : Nat) : List (List Term) → List Node
  | [] => []
  | argument :: rest =>
    let body := sequenceNodes (some (nodeId (k + 1))) (k + 1) argument
    .ofGroup (nodeId (k + 1)) (some owner) (some slot) ::
      body ++ argumentNodes owner (slot + 1) (k + 1 + body.length) rest

end

end Term

/-- The store of a formula, where `k` identifiers are issued already. -/
def Store.ofTerms (k : Nat) (terms : List Term) : Store :=
  ⟨Term.sequenceNodes none k terms⟩

end Formulary
