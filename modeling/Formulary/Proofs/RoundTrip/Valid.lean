/-
# Valid stores that keep their text

That a store is valid says nothing about the numbers it holds, nor about the sequences below its roots.
So the canonical text of a valid store is not always that of what is read from it: a number below zero
comes back as an operator and a number, an integer beyond the doubles is dropped, and in a sequence `AND`,
`OR` and `NOT` are taken for calls or for operators. Nothing else goes wrong (`keeps_text_iff_legible`).

Key definitions: `Catalog.Readable`, `Store.Legible`.
Key theorem: `Store.keeps_text_iff_legible`.
-/
import Formulary.Proofs.Outline.Legible
import Formulary.Proofs.Outline.Spell
import Formulary.Proofs.RoundTrip.Layout
import Formulary.Proofs.Store.Expressible
import Formulary.Proofs.Structure.Valid

namespace Formulary

/-! ### Catalogs -/

/-- Whether every attribute of a catalog is found by its identifier and by its name, and no name has a
closing brace. -/
structure Catalog.Readable (catalog : Catalog) : Prop extends catalog.Keyed where
  names : (catalog.map (·.name)).Nodup
  braces : ∀ a ∈ catalog, '}' ∉ a.name.toList

namespace Catalog

variable {catalog : Catalog}

theorem findByName?_of_mem : ∀ {catalog : Catalog} {a : Attribute},
    (catalog.map (·.name)).Nodup → a ∈ catalog → catalog.findByName? a.name = some a
  | b :: rest, a, h, ha => by
    obtain ⟨hfresh, hrest⟩ := List.nodup_cons.mp h
    rcases List.mem_cons.mp ha with rfl | ha
    · exact List.find?_cons_of_pos (by simp)
    · have hne : b.name ≠ a.name := fun heq => hfresh (List.mem_map.mpr ⟨a, ha, heq.symm⟩)
      rw [findByName?, List.find?_cons_of_neg (by simpa using hne)]
      exact findByName?_of_mem hrest ha

/-- Every identifier that a readable catalog has can be written. -/
theorem Readable.expresses (h : catalog.Readable) {id : String} (hid : id ≠ "")
    (hsome : (catalog.lookup? id).isSome = true) : catalog.Expresses id := by
  obtain ⟨found, hfound⟩ := Option.isSome_iff_exists.mp hsome
  have hmem : found ∈ catalog := List.mem_of_find?_eq_some hfound
  have heq : found.id = id := by simpa using List.find?_some hfound
  refine ⟨hid, found, hfound, h.braces found hmem, ?_⟩
  rw [findByName?_of_mem h.names hmem, Option.map_some, heq]

end Catalog

/-- **A layout keeps its text if and only if nothing in it is lost** and all its sequences are read as
they are meant. -/
theorem Formula.keeps_layout_iff {catalog : Catalog} {limit : Int} {os : List Outline}
    (hkeyed : catalog.Keyed) (hspelled : ∀ m ∈ Outline.sequenceMarks os, m.Spelled catalog)
    (hprintable_of : (∀ m ∈ Outline.sequenceMarks os, m.Printable catalog) →
      Outline.Printable catalog os)
    (hheight : (Outline.sequenceHeight os : Int) ≤ max limit 0) :
    (∃ formula, Formula.read limit catalog (String.ofList (Tree.layoutText catalog os)) = .ok formula ∧
      Tree.layoutText catalog formula.outlines = Tree.layoutText catalog os) ↔
        Outline.Printable catalog os ∧ ∀ q ∈ Outline.sequences os, Outline.Clear false q := by
  constructor
  · rintro ⟨formula, hread, htext⟩
    have hgood := good_of_read hread
    have hback := hgood.printable hkeyed
    have hprintable := hprintable_of (Outline.plain_of_text_eq hspelled hback htext.symm)
    have hfits : ∀ q ∈ Outline.sequences formula.outlines,
        Role.callsFit false (q.map Outline.role) = true := fun q hq => (hgood.fine q hq).fits
    -- What was read is what comes back of itself, so that all its sequences are clear.
    rw [← htext] at hread
    obtain ⟨-, houtlines⟩ := outlines_of_read_layout hback hfits hread
    have hmisreads := (Outline.layout_sequenceReread_iff catalog
      (Outline.sequenceSettled formula.outlines)).mp (by
        rw [← houtlines]
        exact (Outline.layoutText_settled hback).symm)
    have hclear : ∀ q ∈ Outline.sequences (Outline.sequenceSettled formula.outlines),
        Outline.Clear false q := fun q hq =>
      ⟨(Outline.readable_settled hback hfits hq).2, hmisreads q hq⟩
    -- The layout tells that, and it is the same.
    rw [← Outline.legible_sequenceMarks, ← Outline.settled_eq_of_text_eq hprintable hback htext.symm,
      Outline.legible_sequenceMarks, Outline.clear_settled_iff] at hclear
    exact ⟨hprintable, hclear⟩
  · rintro ⟨hprintable, hclear⟩
    obtain ⟨formula, hread, -, houtlines⟩ :=
      read_layout hprintable (fun q hq => (hclear q hq).1) hheight
    refine ⟨formula, hread, ?_⟩
    rw [← Outline.layoutText_settled hprintable, houtlines]
    exact (Outline.layout_sequenceReread_iff catalog _).mpr
      fun q hq => (Outline.clear_settled_iff.mpr hclear q hq).2

namespace Store

open Formulary.Tree

variable {catalog : Catalog} {limit : Int} {store : Store}

/-- Whether every value of a store is a finite number. -/
def Finite (store : Store) : Prop :=
  ∀ node ∈ store.nodes, node.kind = .value → ∃ n q, node.value = some n ∧ n.value? = some q

/-- Whether what a store holds shows in its text. -/
structure Legible (store : Store) : Prop where
  /-- No value is below zero or beyond the doubles. -/
  value : ∀ node ∈ store.nodes, node.kind = .value → ∀ n q, node.value = some n →
    n.value? = some q → 0 ≤ q ∧ q < Number.ceiling
  /-- No call of `AND`, `OR` or `NOT` stands behind an operand. -/
  calls : ∀ q ∈ store.sequences, Role.callsFit false (q.map Node.role) = true
  /-- No operator `AND`, `OR` or `NOT` stands in front of a group without an operand before it. -/
  words : ∀ q ∈ store.sequences, Role.misreads false (q.map Node.role) = 0

theorem Arranged.clear_iff (h : store.Arranged) :
    (∀ q ∈ Outline.sequences (outlines store.forest), Outline.Clear false q) ↔
      (∀ q ∈ store.sequences, Role.callsFit false (q.map Node.role) = true) ∧
        ∀ q ∈ store.sequences, Role.misreads false (q.map Node.role) = 0 := by
  rw [h.forall_roles_iff (P := fun rs => Role.callsFit false rs = true),
    h.forall_roles_iff (P := fun rs => Role.misreads false rs = 0)]
  exact forall₂_and

theorem Finite.isSome (h : store.Finite) {node : Node} (hnode : node ∈ store.nodes)
    (hkind : node.kind = .value) : node.value.isSome = true := by
  obtain ⟨n, q, hn, -⟩ := h node hnode hkind
  rw [hn]
  rfl

/-- In a well-formed store with finite numbers all but numbers can be written. -/
theorem WellFormed.sound_or_value (h : store.WellFormed (some catalog)) (hcatalog : catalog.Readable)
    (hfinite : store.Finite) {t : Tree} (hnode : t.node ∈ store.nodes) :
    t.outline.Sound catalog ∨ t.node.kind = .value ∧ ∃ n q, t.node.value = some n ∧
      n.value? = some q ∧ t.outline = .value n := by
  by_cases hkind : t.node.kind = .value
  · obtain ⟨n, q, hn, hq⟩ := hfinite t.node hnode hkind
    refine .inr ⟨hkind, n, q, hn, hq, ?_⟩
    obtain ⟨node, children⟩ := t
    simp only [outline, show node.kind = .value from hkind, show node.value = some n from hn,
      Option.getD_some]
  · refine .inl (sound_outline (h.sound hnode (fun hkind id hid hne => ?_) fun h => absurd h hkind))
    obtain ⟨_, hsame, -, hlookup⟩ := h.reference t.node hnode hkind
    obtain rfl := Option.some.inj (hid.symm.trans hsame)
    exact (hcatalog.expresses hne (hlookup catalog rfl)).2

section Text

variable (hvalid : store.WellFormed (some catalog)) (hcatalog : catalog.Readable)
  (hfinite : store.Finite)
include hvalid hcatalog hfinite

theorem spelled_marks : ∀ m ∈ Outline.sequenceMarks (outlines store.forest), m.Spelled catalog := by
  have harranged := hvalid.arranged fun _ => hfinite.isSome
  refine (Outline.forall_mem_sequenceMarks (by simp [Mark.Spelled]) _).mpr fun q hq o ho => ?_
  obtain ⟨t, ht, rfl⟩ := (harranged.forall_sequences hq).2 o ho
  have hnode := (subtrees_forest hvalid.acyclic ht).1
  rcases hvalid.sound_or_value hcatalog hfinite hnode with hsound | ⟨-, n, r, -, hr, houtline⟩
  · exact fun m hm => (Outline.printable_own hsound m hm).spelled
  · rintro m hm
    rw [houtline] at hm
    obtain rfl := Option.some.inj hm
    exact ⟨r, hr⟩

/-- The canonical text of a well-formed store with finite numbers is the layout of its outline. -/
theorem canonical_of_wellFormed (placeholder : String) : store.canonical catalog placeholder =
    String.ofList (layoutText catalog (outlines store.forest)) := by
  have harranged := hvalid.arranged fun _ => hfinite.isSome
  rw [canonical, sequenceText_of_spelled harranged.regular_forest
    (spelled_marks hvalid hcatalog hfinite)]

/-- Nothing but its numbers keeps an outline from being laid out without a loss. -/
theorem printable_of_marks
    (hmarks : ∀ m ∈ Outline.sequenceMarks (outlines store.forest), m.Printable catalog) :
    Outline.Printable catalog (outlines store.forest) := by
  have harranged := hvalid.arranged fun _ => hfinite.isSome
  have hown := (Outline.forall_mem_sequenceMarks Outline.printable_frame _).mp hmarks
  intro q hq o ho
  obtain ⟨t, ht, rfl⟩ := (harranged.forall_sequences hq).2 o ho
  have hnode := (subtrees_forest hvalid.acyclic ht).1
  rcases hvalid.sound_or_value hcatalog hfinite hnode with hsound | ⟨-, n, r, -, -, houtline⟩
  · exact hsound
  · have hplain := hown q hq _ ho (.value n) (by rw [houtline]; rfl)
    rw [houtline]
    exact hplain

/-- The outline can be laid out without a loss if and only if no number is below zero or beyond the
doubles. -/
theorem printable_iff : Outline.Printable catalog (outlines store.forest) ↔
    ∀ node ∈ store.nodes, node.kind = .value → ∀ n q, node.value = some n →
      n.value? = some q → 0 ≤ q ∧ q < Number.ceiling := by
  have harranged := hvalid.arranged fun _ => hfinite.isSome
  constructor
  · intro hprintable node hnode hkind n r hn hr
    obtain ⟨q, hq, t, rfl, ht⟩ := harranged.exists_outline hnode (by simp [Node.isArgument, hkind])
    have hsound := harranged.sound_node hnode (hprintable q hq _ ht)
    simp only [Node.Sound, hkind] at hsound
    obtain ⟨_, hsame, hplain⟩ := hsound
    obtain rfl := Option.some.inj (hn.symm.trans hsame)
    exact (Number.plain_iff hr).mp hplain
  · intro hvalues q hq o ho
    obtain ⟨t, ht, rfl⟩ := (harranged.forall_sequences hq).2 o ho
    have hnode := (subtrees_forest hvalid.acyclic ht).1
    rcases hvalid.sound_or_value hcatalog hfinite hnode with hsound | ⟨hkind, n, r, hn, hr, houtline⟩
    · exact hsound
    · rw [houtline]
      exact (Number.plain_iff hr).mpr (hvalues t.node hnode hkind n r hn hr)

end Text

/-- **A valid store keeps its text if and only if the text shows what it holds.** -/
theorem keeps_text_iff_legible (hvalid : (store.structureReport (some catalog)).isValid = true)
    (hcatalog : catalog.Readable) (hfinite : store.Finite)
    (hnesting : (nestingAll store.forest : Int) ≤ limit) (placeholder : String) :
    (∃ formula, Formula.read limit catalog (store.canonical catalog placeholder) = .ok formula ∧
      ∀ k, (formula.store k).canonical catalog placeholder = store.canonical catalog placeholder) ↔
        store.Legible := by
  have hwell := wellFormed_of_isValid hvalid
  have harranged := hwell.arranged fun _ => hfinite.isSome
  have hheight : (Outline.sequenceHeight (outlines store.forest) : Int) ≤ max limit 0 := by
    rw [sequenceHeight_outlines harranged.regular_forest]
    omega
  have hiff := Formula.keeps_layout_iff hcatalog.toKeyed
    (spelled_marks hwell hcatalog hfinite) (printable_of_marks hwell hcatalog hfinite) hheight
  have hcanonical : ∀ formula, Formula.read limit catalog (store.canonical catalog placeholder) =
      .ok formula → ∀ k, ((formula.store k).canonical catalog placeholder =
        store.canonical catalog placeholder ↔
          layoutText catalog formula.outlines = layoutText catalog (outlines store.forest)) := by
    intro formula hread k
    rw [Formula.canonical_store ((Formula.good_of_read hread).printable hcatalog.toKeyed),
      canonical_of_wellFormed hwell hcatalog hfinite, String.ofList_inj]
  rw [printable_iff hwell hcatalog hfinite, harranged.clear_iff] at hiff
  rw [canonical_of_wellFormed hwell hcatalog hfinite] at hcanonical ⊢
  constructor
  · rintro ⟨formula, hread, hsame⟩
    obtain ⟨hvalue, hcalls, hwords⟩ := hiff.mp ⟨formula, hread, (hcanonical formula hread 0).mp (hsame 0)⟩
    exact ⟨hvalue, hcalls, hwords⟩
  · rintro ⟨hvalue, hcalls, hwords⟩
    obtain ⟨formula, hread, hsame⟩ := hiff.mpr ⟨hvalue, hcalls, hwords⟩
    exact ⟨formula, hread, fun k => (hcanonical formula hread k).mpr hsame⟩

/-- The square root of a number. -/
def root : Store :=
  ⟨[.ofFunction "f" none (some "sqrt"), .ofGroup "g" (some "f") (some 0),
    .ofValue "v" (some "g") (some (.integer 5))]⟩

theorem value_root : ∀ node ∈ root.nodes, node.kind = .value → node.value = some (.integer 5) := by
  decide

theorem legible_root : root.Legible where
  value := by
    intro node hnode hkind n q hn hq
    obtain rfl := Option.some.inj (hn.symm.trans (value_root node hnode hkind))
    have hplain : 0 ≤ (5 : Int) ∧ (Magnitude.ofDecimal? 5 0).isSome = true := by decide +kernel
    exact (Number.plain_iff hq).mp hplain
  calls := by decide
  words := by decide

/-- A number under a root is kept. -/
theorem keeps_text_root : (root.structureReport (some [])).isValid = true ∧ Catalog.Readable [] ∧
    root.Finite ∧ nestingAll root.forest = 1 ∧
    ∃ formula, Formula.read 1 [] (root.canonical [] "?") = .ok formula ∧
      ∀ k, (formula.store k).canonical [] "?" = root.canonical [] "?" := by
  have hvalid : (root.structureReport (some [])).isValid = true := by decide
  have hreadable : Catalog.Readable [] := ⟨⟨by decide, by decide⟩, by decide, by decide⟩
  have hfinite : root.Finite := fun node hnode hkind =>
    ⟨.integer 5, 5, value_root node hnode hkind, rfl⟩
  have hnesting : nestingAll root.forest = 1 := by decide
  exact ⟨hvalid, hreadable, hfinite, hnesting,
    (keeps_text_iff_legible hvalid hreadable hfinite (by rw [hnesting]; rfl) "?").mpr legible_root⟩

theorem pieces_negative : pieces "-5".toList =
    [.lexeme (.operator "-"), .lexeme (.value "5" (.integer 5))] := by
  have hunsigned : Number.Unsigned ['5'] := ⟨'5', [], rfl, rfl, by simp⟩
  have hend : EndsRun [] := fun c hc => by cases hc
  have hpieces := pieces_signed hunsigned hend
  have hpiece : numberPiece ['5'] = .lexeme (.value "5" (.integer 5)) := by decide +kernel
  rw [hpiece, show pieces [] = [] by rw [pieces]] at hpieces
  exact hpieces

/-- A number below zero is valid, and comes back as an operator and a number. -/
theorem not_keeps_text_negative : ∃ store : Store,
    (store.structureReport (some [])).isValid = true ∧ Catalog.Readable [] ∧ store.Finite ∧
    nestingAll store.forest = 0 ∧ store.canonical [] "?" = "-5" ∧
    ¬∃ formula, Formula.read 0 [] (store.canonical [] "?") = .ok formula ∧
      ∀ k, (formula.store k).canonical [] "?" = store.canonical [] "?" := by
  have hcanonical : (Store.mk [.ofValue "v" none (some (.integer (-5)))]).canonical [] "?" = "-5" := by
    decide
  refine ⟨⟨[.ofValue "v" none (some (.integer (-5)))]⟩, by decide,
    ⟨⟨by decide, by decide⟩, by decide, by decide⟩, ?_, by decide, hcanonical, ?_⟩
  · rintro node hnode -
    obtain rfl := List.mem_singleton.mp hnode
    exact ⟨.integer (-5), -5, rfl, rfl⟩
  · rintro ⟨formula, hread, hsame⟩
    rw [hcanonical] at hread hsame
    have hback : Formula.read 0 [] "-5" =
        .ok ⟨Scan.ofText "-5", [.operator 0 "-", .value 1 (.integer 5)], []⟩ := by
      refine Formula.read_of_readTerms ?_
      rw [Scan.ofText, pieces_negative]
      rfl
    obtain rfl := Except.ok.inj (hread.symm.trans hback)
    have hspaced : "- 5" = "-5" := hsame 0
    exact absurd hspaced (by decide)

end Store
end Formulary
