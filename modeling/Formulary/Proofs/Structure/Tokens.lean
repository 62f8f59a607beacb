/-
# The tokens of a canonical text

The canonical text of a store is scanned into the tokens of its forest, and nothing of it is dropped:
operators, values and references are one token each, a group stands in parentheses, and a call is the
name of its function and, in parentheses, its arguments with a comma between each two
(`Store.scan_canonical`). No two tokens run into each other, even where operands or operators stand side
by side, and no name that the catalog has for a reference is taken for anything else.

Nothing is asked of the order of operands and operators, nor of whether the text is read back.

Key definitions: `Tree.lexemes`, `Node.Clear`, `Mark.Emit`.
Key theorems: `Tree.emit_sequenceMarks`, `Store.Intact.lexemes_canonical`, `Store.scan_canonical`.
-/
import Formulary.Proofs.Number.Rounding
import Formulary.Proofs.Structure.Valid

namespace Formulary

/-! ### The tokens of a tree -/

/-- The lexeme of an operator. The names `AND`, `OR` and `NOT` are those of functions. -/
def Lexeme.ofOperator (symbol : String) : Lexeme :=
  if isFunctionName symbol then .function symbol else .operator symbol

namespace Tree

section
variable (catalog : Catalog)

mutual

/-- The lexemes of a tree. An absent value is a zero. -/
def lexemes : Tree → List Lexeme
  | mk node children =>
    match node.kind with
    | .reference => [.reference (((catalog.lookup? (node.reference.getD "")).map (·.name)).getD "")]
    | .operator => [.ofOperator (node.operator.getD "")]
    | .value => [.ofNumber (node.value.getD (.integer 0))]
    | .function => .function (node.function.getD "") :: .opening :: argumentLexemes children ++ [.closing]
    | .group => .opening :: sequenceLexemes children ++ [.closing]

/-- The lexemes of a sequence of trees. -/
def sequenceLexemes : List Tree → List Lexeme
  | [] => []
  | tree :: rest => tree.lexemes ++ sequenceLexemes rest

/-- The lexemes of the arguments of a function, with a comma between each two. -/
def argumentLexemes : List Tree → List Lexeme
  | [] => []
  | [mk _ children] => sequenceLexemes children
  | mk _ children :: rest => sequenceLexemes children ++ .comma :: argumentLexemes rest

end

end

end Tree

/-- Whether what a node holds is written as a token of its own that a scan gives back. -/
def Node.Clear (catalog : Catalog) (node : Node) : Prop :=
  match node.kind with
  | .reference => (Mark.reference (node.reference.getD "")).Clear catalog
  | .operator => isOperator (node.operator.getD "") = true
  | .value => (node.value.getD (.integer 0)).Plain
  | .function => isFunctionName (node.function.getD "") = true
  | .group => True

/-! ### Marks and their lexemes -/

/-- Whether marks are clear and stand for the given lexemes. -/
structure Mark.Emit (catalog : Catalog) (ms : List Mark) (ls : List Lexeme) : Prop where
  clear : ∀ m ∈ ms, m.Clear catalog
  lexemes : (ms.map (Mark.piece catalog)).filterMap Piece.lexeme? = ls

namespace Mark.Emit

variable {catalog : Catalog} {ms ns : List Mark} {ls ks : List Lexeme}

theorem append (h : Emit catalog ms ls) (hn : Emit catalog ns ks) :
    Emit catalog (ms ++ ns) (ls ++ ks) where
  clear m hm := (List.mem_append.mp hm).elim (h.clear m) (hn.clear m)
  lexemes := by rw [List.map_append, List.filterMap_append, h.lexemes, hn.lexemes]

theorem single {m : Mark} {l : Lexeme} (hm : m.Clear catalog) (hl : m.piece catalog = .lexeme l) :
    Emit catalog [m] [l] where
  clear := List.forall_mem_singleton.mpr hm
  lexemes := by rw [List.map_singleton, hl]; rfl

theorem blank : Emit catalog [.blank] [] :=
  ⟨List.forall_mem_singleton.mpr trivial, rfl⟩

theorem opening : Emit catalog [.opening] [.opening] :=
  single (m := .opening) trivial rfl

theorem closing : Emit catalog [.closing] [.closing] :=
  single (m := .closing) trivial rfl

theorem comma : Emit catalog [.comma] [.comma] :=
  single (m := .comma) trivial rfl

end Mark.Emit

namespace Tree

variable {catalog : Catalog}

mutual

theorem emit_marks : ∀ {t : Tree}, (∀ n ∈ t.preorder, n.Clear catalog) →
    Mark.Emit catalog t.outline.marks (t.lexemes catalog)
  | mk node children, h => by
    have hown : node.Clear catalog := h node List.mem_cons_self
    have hbelow : ∀ n ∈ preorderAll children, n.Clear catalog := fun n hn =>
      h n (List.mem_cons_of_mem _ hn)
    unfold Node.Clear at hown
    unfold outline lexemes
    cases hkind : node.kind with
    | reference =>
      simp only [hkind] at hown
      exact .single hown rfl
    | operator =>
      simp only [hkind] at hown
      exact .single (m := .word (node.operator.getD "")) (.inr hown) rfl
    | value =>
      simp only [hkind] at hown
      exact .single (m := .value (node.value.getD (.integer 0))) hown rfl
    | function =>
      simp only [hkind] at hown
      have hname : Mark.Emit catalog [.word (node.function.getD "")]
          [.function (node.function.getD "")] :=
        .single (.inl hown) (by rw [Mark.piece, if_pos hown])
      exact hname.append (Mark.Emit.opening.append ((emit_argumentMarks hbelow).append .closing))
    | group => exact Mark.Emit.opening.append ((emit_sequenceMarks hbelow).append .closing)

/-- The marks of trees whose nodes are clear stand for the lexemes of the trees. -/
theorem emit_sequenceMarks : ∀ {ts : List Tree}, (∀ n ∈ preorderAll ts, n.Clear catalog) →
    Mark.Emit catalog (Outline.sequenceMarks (outlines ts)) (sequenceLexemes catalog ts)
  | [], _ => ⟨fun _ hm => (by cases hm), rfl⟩
  | [t], h => by
    have ht := emit_marks (t := t) fun n hn => h n (List.mem_append_left _ hn)
    rw [sequenceLexemes, sequenceLexemes, List.append_nil]
    exact ht
  | t :: u :: rest, h => by
    have ht := emit_marks (t := t) fun n hn => h n (List.mem_append_left _ hn)
    have ih := @emit_sequenceMarks (u :: rest) fun n hn => h n (List.mem_append_right _ hn)
    rw [sequenceLexemes]
    exact ht.append (Mark.Emit.blank.append ih)

theorem emit_argumentMarks : ∀ {ts : List Tree}, (∀ n ∈ preorderAll ts, n.Clear catalog) →
    Mark.Emit catalog (Outline.argumentMarks (argumentOutlines ts)) (argumentLexemes catalog ts)
  | [], _ => ⟨fun _ hm => (by cases hm), rfl⟩
  | [mk node children], h =>
    emit_sequenceMarks fun n hn => h n (List.mem_append_left _ (List.mem_cons_of_mem _ hn))
  | mk node children :: mk next body :: rest, h => by
    have hfirst := @emit_sequenceMarks children fun n hn =>
      h n (List.mem_append_left _ (List.mem_cons_of_mem _ hn))
    have ih := @emit_argumentMarks (mk next body :: rest) fun n hn =>
      h n (List.mem_append_right _ hn)
    exact hfirst.append (Mark.Emit.comma.append (Mark.Emit.blank.append ih))

end

end Tree

namespace Store

open Formulary.Tree

variable {store : Store} {catalog : Catalog}

/-- The text of an intact store with all slots is scanned into the lexemes of its forest if its nodes are
clear. -/
theorem Intact.lexemes_canonical (h : store.Intact) (hslots : store.Slotted)
    (hclear : ∀ node ∈ store.nodes, node.Clear catalog) (placeholder : String) :
    (Scan.ofText (store.canonical catalog placeholder)).tokens.map Token.lexeme =
        sequenceLexemes catalog store.forest ∧
      (Scan.ofText (store.canonical catalog placeholder)).diagnostics = [] := by
  have hemit : Mark.Emit catalog (Outline.sequenceMarks (outlines store.forest))
      (sequenceLexemes catalog store.forest) :=
    emit_sequenceMarks fun n hn => hclear n (mem_nodes_of_mem_preorder h.acyclic hn)
  have htext : store.canonical catalog placeholder =
      String.ofList (layoutText catalog (outlines store.forest)) :=
    congrArg String.ofList (sequenceText_of_formed (h.formed_forest hslots)
      fun m hm => (hemit.clear m hm).written)
  obtain ⟨hlexemes, hdiagnostics⟩ := Outline.scan_of_clear hemit.clear
  rw [htext]
  exact ⟨hlexemes.trans hemit.lexemes, hdiagnostics⟩

theorem plain_zero : (Number.integer 0).Plain := by
  have hceiling : 0 < Number.ceiling := by decide +kernel
  exact ⟨Int.le_refl 0, Magnitude.isSome_ofDecimal?_iff.mpr hceiling⟩

/-- What a node of a store without integrity issues holds is clear, once its function, its value and its
reference are. -/
theorem clear_of_integrityIssues {given : Option Catalog} {node : Node}
    (h : store.integrityIssues given = []) (hnode : node ∈ store.nodes)
    (hfunction : node.kind = .function →
      ∃ name, node.function = some name ∧ isFunctionName name = true)
    (hvalue : node.kind = .value → ∀ n, node.value = some n →
      ∃ q, n.value? = some q ∧ 0 ≤ q ∧ q < Number.ceiling)
    (hreference : node.kind = .reference → ∀ id, node.reference = some id →
      ∃ found, catalog.lookup? id = some found ∧ '}' ∉ found.name.toList) :
    node.Clear catalog := by
  obtain ⟨-, -, hoperator, hreferred⟩ := (integrityIssues_eq_nil_iff.mp h).2 node hnode
  unfold Node.Clear
  cases hkind : node.kind with
  | reference =>
    obtain ⟨id, hid, hne, -⟩ := referenceIssues_eq_nil_iff.mp hreferred hkind
    rw [hid]
    exact ⟨hne, hreference hkind id hid⟩
  | operator =>
    obtain ⟨symbol, hsymbol, hknown⟩ := operatorIssues_eq_nil_iff.mp hoperator hkind
    rw [hsymbol]
    exact hknown
  | value =>
    cases hnumber : node.value with
    | none => exact plain_zero
    | some n =>
      obtain ⟨q, hq, hzero, hceiling⟩ := hvalue hkind n hnumber
      exact Number.plain_of_value? hq hzero hceiling
  | function =>
    obtain ⟨name, hname, hknown⟩ := hfunction hkind
    rw [hname]
    exact hknown
  | group => trivial

/-- **The text of a store is scanned into the tokens of its forest.** In a store without integrity issues
let the functions be known, the arguments of each be in the slots from zero on, the values not be
negative and in range, and let every reference lead to a name without a closing brace. Then no diagnostic
comes up, and the lexemes are those of the forest. -/
theorem scan_canonical (store : Store) (catalog : Catalog) (placeholder : String)
    (hintegrity : store.integrityIssues none = [])
    (hfunctions : ∀ node ∈ store.nodes, node.kind = .function →
      ∃ name, node.function = some name ∧ isFunctionName name = true)
    (hslots : ∀ node ∈ store.nodes, node.kind = .function →
      ((store.childrenOf node.id).map (·.slot)).Perm
        ((List.range (store.childrenOf node.id).length).map fun slot : Nat => some (slot : Int)))
    (hvalues : ∀ node ∈ store.nodes, node.kind = .value → ∀ n, node.value = some n →
      ∃ q, n.value? = some q ∧ 0 ≤ q ∧ q < Number.ceiling)
    (hreferences : ∀ node ∈ store.nodes, node.kind = .reference → ∀ id, node.reference = some id →
      ∃ found, catalog.lookup? id = some found ∧ '}' ∉ found.name.toList) :
    (Scan.ofText (store.canonical catalog placeholder)).tokens.map Token.lexeme =
        sequenceLexemes catalog store.forest ∧
      (Scan.ofText (store.canonical catalog placeholder)).diagnostics = [] :=
  (intact_of_integrityIssues hintegrity).lexemes_canonical hslots
    (fun node hnode => clear_of_integrityIssues hintegrity hnode (hfunctions node hnode)
      (hvalues node hnode) (hreferences node hnode)) placeholder

/-- Operands and operators side by side: two stars, a one, a reference whose name has a parenthesis, a comma
and an opening brace, a call with one argument of none and one without a number, and an empty group. -/
def crowded : Store :=
  ⟨[.ofGroup "second" (some "and") (some 1), .ofValue "none" (some "second") none,
    .ofOperator "star" none (some "*"), .ofOperator "again" none (some "*"),
    .ofValue "one" none (some (.integer 1)), .ofReference "x" none (some "a"),
    .ofFunction "and" none (some "AND"), .ofGroup "first" (some "and") (some 0),
    .ofGroup "hollow" none none]⟩

/-- The two stars stay two, and the name of the reference stays one. -/
theorem scan_canonical_crowded :
    crowded.integrityIssues none = [] ∧
    crowded.canonical [⟨"a", "a(,\x7b", none⟩] "?" = "* * 1 \x7ba(,\x7b\x7d AND(, 0) ()" ∧
    (Scan.ofText "* * 1 \x7ba(,\x7b\x7d AND(, 0) ()").tokens.map Token.lexeme =
      [.operator "*", .operator "*", .value "1" (.integer 1), .reference "a(,\x7b", .function "AND",
        .opening, .comma, .value "0" (.integer 0), .closing, .opening, .closing] ∧
    (Scan.ofText "* * 1 \x7ba(,\x7b\x7d AND(, 0) ()").diagnostics = [] := by
  have hintegrity : crowded.integrityIssues none = [] := by decide
  have hcanonical : crowded.canonical [⟨"a", "a(,\x7b", none⟩] "?" =
      "* * 1 \x7ba(,\x7b\x7d AND(, 0) ()" := by
    decide +kernel
  have hvalues : ∀ node ∈ crowded.nodes, node.kind = .value → ∀ n, node.value = some n →
      ∃ q, n.value? = some q ∧ 0 ≤ q ∧ q < Number.ceiling := by
    have hall : ∀ node ∈ crowded.nodes, node.kind = .value →
        node.value = none ∨ node.value = some (.integer 1) := by
      decide
    have hceiling : 1 < Number.ceiling := by decide +kernel
    intro node hnode hkind n hn
    rcases hall node hnode hkind with hnone | hone
    · rw [hnone] at hn
      cases hn
    · obtain rfl := Option.some.inj (hone.symm.trans hn)
      exact ⟨1, by rw [Number.value?, Int.cast_one], zero_le_one, Nat.one_lt_cast.mpr hceiling⟩
  have hscan := scan_canonical crowded [⟨"a", "a(,\x7b", none⟩] "?" hintegrity (by decide) (by decide)
    hvalues (by decide)
  rw [hcanonical] at hscan
  exact ⟨hintegrity, hcanonical, hscan⟩

end Store
end Formulary
