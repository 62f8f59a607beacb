/-
# Canonical text

Every store has one canonical text. The terms of a sequence are separated by single blanks; those
without any text leave no blank, and argument groups that stand in a sequence are passed over. A
reference is written as the name of its attribute in braces, or as a placeholder if the catalog does
not have the attribute. The arguments of a call are separated by a comma and a blank: one for each
slot up to the highest, empty where no group has the slot; of several groups with one slot the first
is written.

Key definitions: `Tree.text`, `Tree.sequenceText`, `Store.canonical`.
-/
import Formulary.Catalog.Basic
import Formulary.Number.Notation
import Formulary.Tree

namespace Formulary

/-- Texts with a separator between them. -/
def joined (separator : List Char) : List (List Char) → List Char
  | [] => []
  | [text] => text
  | text :: rest => text ++ separator ++ joined separator rest

/-- The text of a reference. -/
def referenceText (catalog : Catalog) (placeholder : String) : Option String → List Char
  | none => placeholder.toList
  | some id =>
    if id = "" then placeholder.toList
    else
      match catalog.lookup? id with
      | some found => '{' :: found.name.toList ++ ['}']
      | none => placeholder.toList

namespace Tree

variable (catalog : Catalog) (placeholder : String)

mutual

/-- The text of a tree. -/
def text : Tree → List Char
  | mk node children =>
    match node.kind with
    | .reference => referenceText catalog placeholder node.reference
    | .operator => (node.operator.getD "").toList
    | .value => numberText node.value
    | .function =>
      (node.function.getD "").toList ++ '(' :: joined [',', ' '] (argumentTexts 0 children) ++ [')']
    | .group => '(' :: joined [' '] ((parts children).filter (!·.isEmpty)) ++ [')']

/-- The texts of the terms of a sequence. -/
def parts : List Tree → List (List Char)
  | [] => []
  | tree :: rest => if tree.node.isArgument then parts rest else text tree :: parts rest

/-- The texts of the arguments from a slot on, given groups in the order of their slots. -/
def argumentTexts (slot : Int) : List Tree → List (List Char)
  | [] => []
  | mk node children :: rest =>
    let own := node.slot.getD 0
    if own < slot then argumentTexts slot rest
    else
      List.replicate (own - slot).toNat [] ++
        joined [' '] ((parts children).filter (!·.isEmpty)) :: argumentTexts (own + 1) rest

end

/-- The text of a sequence. -/
def sequenceText (trees : List Tree) : List Char :=
  joined [' '] ((parts catalog placeholder trees).filter (!·.isEmpty))

end Tree

/-- The canonical text of a store. -/
def Store.canonical (catalog : Catalog) (placeholder : String) (store : Store) : String :=
  String.ofList (Tree.sequenceText catalog placeholder store.forest)

end Formulary
