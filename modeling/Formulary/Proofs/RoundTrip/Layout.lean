/-
# Formulas, outlines and layouts

Between texts and stores stand outlines. The layout of an outline that a catalog can express is read
without a diagnostic, and what is read is what comes back of the outline (`read_layout`). In the other
direction, the canonical text of a formula is the layout of its outline, if the identifiers of the
catalog are not empty and no two are the same (`canonical_store`).

Key definitions: `Catalog.Keyed`, `Formula.outlines`.
Key theorems: `Formula.read_layout`, `Formula.canonical_store`, `Formula.good_of_read`.
-/
import Formulary.Check.Basic
import Formulary.Proofs.Outline.Tighten
import Formulary.Proofs.Term.Complete
import Formulary.Proofs.Term.Marks
import Formulary.Proofs.Tree.Terms

namespace Formulary

/-- Whether the identifiers of a catalog are not empty and no two are the same. -/
structure Catalog.Keyed (catalog : Catalog) : Prop where
  nonempty : ∀ a ∈ catalog, a.id ≠ ""
  nodup : (catalog.map (·.id)).Nodup

variable {limit : Int} {catalog : Catalog} {placeholder text : String}

theorem Catalog.lookup?_of_mem : ∀ {catalog : Catalog} {a : Attribute},
    (catalog.map (·.id)).Nodup → a ∈ catalog → catalog.lookup? a.id = some a
  | b :: rest, a, h, ha => by
    obtain ⟨hfresh, hrest⟩ := List.nodup_cons.mp h
    rcases List.mem_cons.mp ha with rfl | ha
    · exact List.find?_cons_of_pos (by simp)
    · have hne : b.id ≠ a.id := fun heq => hfresh (List.mem_map.mpr ⟨a, ha, heq.symm⟩)
      rw [lookup?, List.find?_cons_of_neg (by simpa using hne)]
      exact lookup?_of_mem hrest ha

theorem Catalog.isSome_lookup?_of_mem {a : Attribute} (h : a ∈ catalog) :
    (catalog.lookup? a.id).isSome = true := by
  rw [lookup?, List.find?_isSome]
  exact ⟨a, h, by simp⟩

/-- An attribute that a name leads to is written as that name. -/
theorem Catalog.resolves_of_findByName? (h : (catalog.map (·.id)).Nodup) {name : String}
    {found : Attribute} (hname : catalog.findByName? name = some found) (hbrace : '}' ∉ name.toList) :
    catalog.Resolves found.id := by
  have hmem : found ∈ catalog := List.mem_of_find?_eq_some hname
  have heq : found.name = name := by simpa using List.find?_some hname
  refine ⟨found, lookup?_of_mem h hmem, ?_, ?_⟩
  · rw [heq]
    exact hbrace
  · rw [heq, hname]
    rfl

theorem Catalog.Keyed.expresses (h : catalog.Keyed) {name : String} {found : Attribute}
    (hname : catalog.findByName? name = some found) (hbrace : '}' ∉ name.toList) :
    catalog.Expresses found.id :=
  ⟨h.nonempty found (List.mem_of_find?_eq_some hname), resolves_of_findByName? h.nodup hname hbrace⟩

namespace Outline

theorem Scanned.sound {o : Outline} (h : o.Scanned catalog) (hkeyed : catalog.Keyed) :
    o.Sound catalog := by
  cases o with
  | reference id =>
    obtain ⟨name, found, hbrace, hname, rfl⟩ := h
    exact hkeyed.expresses hname hbrace
  | _ => exact h

/-- What is read can be written. -/
theorem Good.printable {strict : Prop} {depth : Nat} {os : List Outline}
    (h : Good limit catalog strict depth os) (hkeyed : catalog.Keyed) : Printable catalog os :=
  fun q hq o ho => ((h.fine q hq).scanned o ho).sound hkeyed

theorem readable_settled {os q : List Outline} (hprintable : Printable catalog os)
    (hfits : ∀ q ∈ sequences os, Role.callsFit false (q.map role) = true)
    (hq : q ∈ sequences (sequenceSettled os)) : Readable false q := by
  refine ⟨fun o ho => named_of_sound (printable_settled hprintable q hq o ho), ?_⟩
  rw [sequences_settled] at hq
  obtain ⟨r, hr, rfl⟩ := List.mem_map.mp hq
  rw [map_role_settled]
  exact hfits r hr

mutual

theorem height_settled : ∀ o : Outline, o.settled.height = o.height
  | reference _ => rfl
  | operator _ => rfl
  | value _ => rfl
  | call _ arguments => by rw [settled, height, height, argumentHeight_settled arguments]
  | group body => by rw [settled, height, height, sequenceHeight_settled body]

theorem sequenceHeight_settled : ∀ os : List Outline,
    sequenceHeight (sequenceSettled os) = sequenceHeight os
  | [] => rfl
  | o :: rest => by
    rw [sequenceSettled, sequenceHeight, sequenceHeight, height_settled o,
      sequenceHeight_settled rest]

theorem argumentHeight_settled : ∀ as : List (List Outline),
    argumentHeight (argumentSettled as) = argumentHeight as
  | [] => rfl
  | a :: rest => by
    rw [argumentSettled, argumentHeight, argumentHeight, sequenceHeight_settled a,
      argumentHeight_settled rest]

end

/-- Settled numbers are written like the numbers. -/
theorem layoutText_settled {os : List Outline} (h : Printable catalog os) :
    Tree.layoutText catalog (sequenceSettled os) = Tree.layoutText catalog os := by
  rw [Tree.layoutText, Tree.layoutText, sequenceMarks_settled, List.flatMap_map]
  refine List.flatMap_congr fun m hm => ?_
  have hm := h.marks m hm
  cases m with
  | value number => simp only [Mark.settled, Tree.text_value, Number.text_settled hm]
  | _ => rfl

end Outline

namespace Formula

/-- The outline of a formula. -/
def outlines (formula : Formula) : List Outline :=
  Term.outlines formula.terms

theorem read_eq : read limit catalog text =
    (readTerms limit catalog (Scan.ofText text).tokens >>= fun (terms, notes) =>
      .ok ⟨Scan.ofText text, terms, notes⟩) := rfl

theorem readTerms_of_read {formula : Formula} (h : read limit catalog text = .ok formula) :
    formula.scan = Scan.ofText text ∧
      readTerms limit catalog (Scan.ofText text).tokens = .ok (formula.terms, formula.notes) := by
  rw [read_eq] at h
  cases hterms : readTerms limit catalog (Scan.ofText text).tokens with
  | error e =>
    rw [hterms] at h
    cases h
  | ok found =>
    rw [hterms] at h
    obtain rfl := Except.ok.inj h
    exact ⟨rfl, rfl⟩

theorem read_of_readTerms {terms : List Term} {notes : List Diagnostic}
    (h : readTerms limit catalog (Scan.ofText text).tokens = .ok (terms, notes)) :
    read limit catalog text = .ok ⟨Scan.ofText text, terms, notes⟩ := by
  rw [read_eq, h]
  rfl

/-- A formula is what the state of the reader at the end of the text is closed to. -/
theorem read_of_progress {s : Progress}
    (h : Progress.read limit catalog (Scan.ofText text).tokens .start = .ok s) :
    read limit catalog text = .ok ⟨Scan.ofText text, (Progress.closeAll s.frames s.body s.notes).1,
      (Progress.closeAll s.frames s.body s.notes).2⟩ := by
  refine read_of_readTerms ?_
  rw [readTerms, h]
  rfl

/-- What is read under a limit is read under any greater one. -/
theorem read_mono {greater : Int} {formula : Formula} (h : read limit catalog text = .ok formula)
    (hle : limit ≤ greater) : read greater catalog text = .ok formula := by
  obtain ⟨hscan, hterms⟩ := readTerms_of_read h
  obtain ⟨s, hread, hclose⟩ := exists_read_of_readTerms hterms
  have hgreater : readTerms greater catalog (Scan.ofText text).tokens =
      .ok (formula.terms, formula.notes) := by
    rw [readTerms, Progress.read_mono hread hle, ← hclose]
    rfl
  rw [read_of_readTerms hgreater, ← hscan]

/-- The diagnostics are those of the scan and those of the reader, in another order. -/
theorem diagnostics_perm (formula : Formula) :
    formula.diagnostics.Perm (formula.scan.diagnostics ++ formula.notes) :=
  sortBy_perm _ _

theorem mem_diagnostics {formula : Formula} {d : Diagnostic} :
    d ∈ formula.diagnostics ↔ d ∈ formula.scan.diagnostics ∨ d ∈ formula.notes := by
  rw [formula.diagnostics_perm.mem_iff, List.mem_append]

theorem diagnostics_eq_nil_iff {formula : Formula} :
    formula.diagnostics = [] ↔ formula.scan.diagnostics = [] ∧ formula.notes = [] := by
  rw [← List.append_eq_nil_iff]
  constructor
  · intro hnil
    have hperm := formula.diagnostics_perm
    rw [hnil] at hperm
    exact hperm.symm.eq_nil
  · intro hnil
    rw [diagnostics, hnil]
    rfl

/-- **What is read is fit to be written.** -/
theorem good_of_read {formula : Formula} (h : read limit catalog text = .ok formula) :
    Outline.Good limit catalog (formula.notes = []) 0 formula.outlines :=
  good_of_readTerms known_of_mem_tokens (readTerms_of_read h).2

/-- **The layout of an outline is read into what comes back of it.** -/
theorem read_layout {os : List Outline} (hprintable : Outline.Printable catalog os)
    (hfits : ∀ q ∈ Outline.sequences os, Role.callsFit false (q.map Outline.role) = true)
    (hheight : (Outline.sequenceHeight os : Int) ≤ max limit 0) :
    ∃ formula, read limit catalog (String.ofList (Tree.layoutText catalog os)) = .ok formula ∧
      formula.diagnostics = [] ∧
      formula.outlines = Outline.sequenceReread false (Outline.sequenceSettled os) := by
  obtain ⟨hmarks, hscan⟩ := Outline.scan_sequenceMarks hprintable
  have hshows := Token.forall₂_shows hmarks known_of_mem_tokens
  obtain ⟨terms, hread, houtlines⟩ := @readTerms_of_shows limit _ _ _ hshows
    (fun q hq => Outline.readable_settled hprintable hfits hq)
    (by rw [Outline.sequenceHeight_settled]; exact hheight)
  exact ⟨_, read_of_readTerms hread, diagnostics_eq_nil_iff.mpr ⟨hscan, rfl⟩, houtlines⟩

/-- Under whatever limit a layout is read, it is read into what comes back of the outline. -/
theorem outlines_of_read_layout {os : List Outline} (hprintable : Outline.Printable catalog os)
    (hfits : ∀ q ∈ Outline.sequences os, Role.callsFit false (q.map Outline.role) = true)
    {formula : Formula}
    (h : read limit catalog (String.ofList (Tree.layoutText catalog os)) = .ok formula) :
    formula.diagnostics = [] ∧
      formula.outlines = Outline.sequenceReread false (Outline.sequenceSettled os) := by
  -- Under a limit that is high enough the same is read.
  obtain ⟨enough, hlimit, hheight⟩ : ∃ enough : Int, limit ≤ enough ∧
      (Outline.sequenceHeight os : Int) ≤ max enough 0 :=
    ⟨max limit (Outline.sequenceHeight os), by omega, by omega⟩
  obtain ⟨same, hsame, hresult⟩ := read_layout hprintable hfits hheight
  rw [read_mono h hlimit] at hsame
  obtain rfl := Except.ok.inj hsame
  exact hresult

/-- **The canonical text of a formula is the layout of its outline**, if the catalog knows its
references. -/
theorem canonical_of_written {formula : Formula}
    (hmarks : ∀ m ∈ Outline.sequenceMarks formula.outlines, m.Written catalog) (k : Nat) :
    (formula.store k).canonical catalog placeholder =
      String.ofList (Tree.layoutText catalog formula.outlines) := by
  have houtlines := Term.outlines_sequenceTrees none k formula.terms
  rw [outlines, ← houtlines] at hmarks
  rw [store, Store.canonical, Store.forest_ofTerms,
    Tree.sequenceText_of_written (Term.regular_sequenceTrees none k formula.terms) hmarks,
    houtlines, outlines]

theorem canonical_store {formula : Formula} (hprintable : Outline.Printable catalog formula.outlines)
    (k : Nat) : (formula.store k).canonical catalog placeholder =
      String.ofList (Tree.layoutText catalog formula.outlines) :=
  canonical_of_written (fun m hm => (hprintable.marks m hm).spelled.written) k

/-- What neighbours in the sequences of a formula have to do with each other is the same in its store
and in its outline. -/
theorem forall_sequences_iff (formula : Formula) (k : Nat) {P : List Role → Prop} :
    (∀ q ∈ (formula.store k).sequences, P (q.map Node.role)) ↔
      ∀ q ∈ Outline.sequences formula.outlines, P (q.map Outline.role) := by
  have hsequences := Store.sequences_ofTerms k formula.terms
  have hiff : (∀ rs ∈ (formula.store k).sequences.map (List.map Node.role), P rs) ↔
      ∀ rs ∈ (Outline.sequences formula.outlines).map (List.map Outline.role), P rs := by
    rw [store, hsequences, outlines]
  rwa [List.forall_mem_map, List.forall_mem_map] at hiff

end Formula

theorem Check.ofText_eq {formula : Formula} (h : Formula.read limit catalog text = .ok formula) :
    Check.ofText limit placeholder catalog text = .ok
      { formula, store := formula.store 0
        canonical := (formula.store 0).canonical catalog placeholder
        diagnostics := formula.diagnostics
        shape := (formula.store 0).structureReport (some catalog)
        types := (formula.store 0).inferTypes catalog } := by
  rw [ofText, h]
  rfl

end Formulary
