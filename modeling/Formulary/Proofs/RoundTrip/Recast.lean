/-
# Calls that are recast, written and read

A formula is read without a diagnostic, and its calls are recast. If the shape of the store is valid after
that, and no sequence has anything wrong with it, then its canonical text is read under the same limit,
again without a diagnostic, and every function has as many argument groups as before, except that one with
a single group that is empty comes back without it. What comes back is valid if no such function takes a
fixed number of arguments (`Formula.slots_of_recast`).

Key theorem: `Formula.slots_of_recast`.
-/
import Formulary.Proofs.Outline.Legible
import Formulary.Proofs.RoundTrip.Layout
import Formulary.Proofs.Store.Calls
import Formulary.Proofs.Store.Recast
import Formulary.Proofs.Structure.Read

namespace Formulary

namespace Outline

variable {catalog : Catalog}

theorem role_reread (o : Outline) : o.reread.role = o.role := by
  cases o <;> rfl

theorem sound_reread {o : Outline} (h : o.Sound catalog) : o.reread.Sound catalog := by
  cases o <;> exact h

/-- What comes back can be written, too. -/
theorem printable_reread {os : List Outline} (h : Printable catalog os)
    (hclear : ∀ q ∈ sequences os, Clear false q) : Printable catalog (sequenceReread false os) :=
  forall_sequences_reread (P := Sound catalog) (fun _ => sound_reread) (fun q hq => (hclear q hq).2) h

theorem map_role_reread {os : List Outline} (h : Clear false os) :
    (sequenceReread false os).map role = os.map role := by
  rw [sequenceReread_eq_map h.2, List.map_map]
  exact List.map_congr_left fun o _ => role_reread o

/-- Operands and operators that alternate are read as they are meant. -/
theorem clear_of_alternates {os : List Outline} (h : Role.alternates (os.map role) = true) :
    Clear false os :=
  ⟨Role.callsFit_of_alternates h, Role.misreads_of_alternates h⟩

end Outline

namespace Store

open Formulary.Tree

variable {store : Store} {catalog : Catalog} {given : Option Catalog} {node : Node}

theorem map_role_forest (store : Store) :
    (outlines store.forest).map Outline.role = store.roots.map Node.role := by
  rw [map_role_outlines, forest, map_node_tree]

/-- If inference finds nothing wrong with the sequences of a store, they are read as they are meant. -/
theorem Arranged.clear (h : store.Arranged)
    (hsequences : ∀ issue ∈ (store.inferTypes catalog).issues, issue.code ∉ sequenceCodes) :
    ∀ q ∈ Outline.sequences (outlines store.forest), Outline.Clear false q := by
  rw [sequences_outlines h.regular_forest, List.forall_mem_map]
  intro ts hts
  have hcheck := checkSequence_of_inferSequence h.regular_forest hsequences ts hts
  by_cases hnil : ts = []
  · rw [hnil]
    exact Outline.clear_nil false
  · refine Outline.clear_of_alternates ?_
    rw [map_role_outlines]
    exact (checkSequence_eq_nil_iff _).mp ⟨by simpa using hnil, hcheck⟩

/-! ### Stores that can be written -/

/-- Whether a store can be written without a loss. -/
structure Writable (catalog : Catalog) (store : Store) : Prop extends Arranged store where
  printable : Outline.Printable catalog (outlines store.forest)

namespace Writable

theorem sound (h : store.Writable catalog) (hnode : node ∈ store.nodes)
    (hargument : node.isArgument = false) : node.Sound catalog := by
  obtain ⟨q, hq, t, rfl, ho⟩ := h.exists_outline hnode hargument
  exact h.sound_node hnode (h.printable q hq _ ho)

theorem isFunctionName (h : store.Writable catalog) (hnode : node ∈ store.nodes)
    (hkind : node.kind = .function) : isFunctionName (node.function.getD "") = true := by
  have hsound := h.sound hnode (by simp [Node.isArgument, hkind])
  simp only [Node.Sound, hkind] at hsound
  obtain ⟨name, hname, hfunction⟩ := hsound
  rw [hname]
  exact hfunction

/-- The canonical text of such a store is the layout of its outline. -/
theorem canonical_eq (h : store.Writable catalog) (placeholder : String) :
    store.canonical catalog placeholder =
      String.ofList (layoutText catalog (outlines store.forest)) := by
  rw [canonical, sequenceText_of_regular h.regular_forest h.printable.marks]

/-- **Such a store is valid if its roots alternate and its functions have their arguments.** -/
theorem wellFormed (h : store.Writable catalog) (hgiven : ∀ c, given = some c → c = catalog)
    (hfunctions : ∀ node ∈ store.nodes, node.kind = .function → store.FillsSlots node)
    (hroots : store.roots = [] ∨ Role.alternates (store.roots.map Node.role) = true) :
    store.WellFormed given where
  toIntact := h.toIntact
  operator := fun node hnode hkind => by
    simpa only [Node.Sound, hkind] using h.sound hnode (by simp [Node.isArgument, hkind])
  reference := fun node hnode hkind => by
    have hsound := h.sound hnode (by simp [Node.isArgument, hkind])
    simp only [Node.Sound, hkind] at hsound
    obtain ⟨id, hid, hne, found, hfound, -⟩ := hsound
    refine ⟨id, hid, hne, fun c hc => ?_⟩
    rw [hgiven c hc, hfound]
    rfl
  function := hfunctions
  roots := hroots

end Writable
end Store

namespace Session

open Formulary.Tree

variable {catalog : Catalog} {given : Option Catalog} {limit : Nat} {session : Session}

/-- What recasting keeps, and what validity asks for, can be expressed. -/
theorem Kept.sound (h : session.Kept catalog limit) (hwell : session.store.WellFormed given)
    {node : Node} (hnode : node ∈ session.store.nodes) : node.Sound catalog := by
  have hspelled := h.spelled node hnode
  unfold Node.Spelled at hspelled
  refine hwell.sound hnode (fun hkind id hid _ => ?_) fun hkind => ?_
  · simp only [hkind] at hspelled
    obtain ⟨_, hsame, hresolves⟩ := hspelled
    obtain rfl := Option.some.inj (hid.symm.trans hsame)
    exact hresolves
  · simp only [hkind] at hspelled
    exact hspelled

/-- **What recasting leaves can be written**, if nothing is wrong with its shape. -/
theorem Kept.writable (h : session.Kept catalog limit) (hwell : session.store.WellFormed given) :
    session.store.Writable catalog := by
  have harranged : session.store.Arranged := hwell.arranged fun node hnode hkind => by
    have hspelled := h.spelled node hnode
    unfold Node.Spelled at hspelled
    simp only [hkind] at hspelled
    obtain ⟨n, hn, -⟩ := hspelled
    rw [hn]
    rfl
  refine { toArranged := harranged, printable := fun q hq o ho => ?_ }
  obtain ⟨t, ht, rfl⟩ := (harranged.forall_sequences hq).2 o ho
  exact sound_outline (h.sound hwell (Store.subtrees_forest harranged.acyclic ht).1)

end Session

namespace Formula

open Formulary.Tree

variable {limit : Int} {catalog : Catalog} {given : Option Catalog} {text : String}
  {formula back : Formula} {session : Session} {store : Store}

/-! ### The store of a formula -/

theorem arranged_store (formula : Formula) (k : Nat) : (formula.store k).Arranged := by
  refine (Store.listed_ofTerms k formula.terms).arranged ?_
  rw [Store.forest_ofTerms]
  exact Term.regular_sequenceTrees none k formula.terms

theorem outlines_forest (formula : Formula) (k : Nat) :
    Tree.outlines (formula.store k).forest = formula.outlines := by
  rw [store, Store.forest_ofTerms, Term.outlines_sequenceTrees, outlines]

/-- No identifier that is still to be issued is that of a node. -/
theorem id_ne_of_issued {k : Nat} {node : Node} (hnode : node ∈ (formula.store k).nodes) {j : Nat}
    (hj : j > k + (formula.store k).size) : node.id ≠ nodeId j := by
  intro heq
  obtain ⟨i, hi, hid⟩ := Term.exists_nodeId_of_mem hnode
  have hsame := nodeId_injective (hid.symm.trans heq)
  have hsize : (formula.store k).size = (Term.sequenceNodes none k formula.terms).length := rfl
  omega

/-- The values and references of a formula that was read can be written. -/
theorem spelled_of_read (hids : (catalog.map (·.id)).Nodup)
    (hread : read limit catalog text = .ok formula) {k : Nat} {node : Node}
    (hnode : node ∈ (formula.store k).nodes) : node.Spelled catalog := by
  have harranged := formula.arranged_store k
  by_cases hargument : node.isArgument = true
  · rw [Node.Spelled, (Node.isArgument_iff.mp hargument).1]
    trivial
  · obtain ⟨q, hq, ⟨node, children⟩, rfl, ho⟩ :=
      harranged.exists_outline hnode (by simpa using hargument)
    rw [outlines_forest] at hq
    have hscanned := ((good_of_read hread).fine q hq).scanned _ ho
    rw [Tree.node] at hnode ⊢
    unfold outline at hscanned
    unfold Node.Spelled
    cases hkind : node.kind with
    | reference =>
      simp only [hkind] at hscanned
      obtain ⟨id, hid⟩ := Option.isSome_iff_exists.mp (harranged.reference node hnode hkind)
      obtain ⟨name, found, hbrace, hname, hfound⟩ := hscanned
      rw [hid, Option.getD_some] at hfound
      refine ⟨id, hid, ?_⟩
      rw [← hfound]
      exact Catalog.resolves_of_findByName? hids hname hbrace
    | value =>
      simp only [hkind] at hscanned
      obtain ⟨n, hn⟩ := Option.isSome_iff_exists.mp (harranged.value node hnode hkind)
      rw [hn] at hscanned
      exact ⟨n, hn, hscanned⟩
    | _ => trivial

/-- **A session starts with what recasting keeps**, if nothing was noted. -/
theorem kept_of_read (hids : (catalog.map (·.id)).Nodup) (hread : read limit catalog text = .ok formula)
    (hclean : formula.diagnostics = []) (k : Nat) :
    Session.Kept catalog (max limit 0).toNat
      ⟨formula.store k, k + (formula.store k).size⟩ := by
  have harranged := formula.arranged_store k
  refine ⟨fun node hnode => spelled_of_read hids hread hnode,
    fun node hnode j hj => ⟨id_ne_of_issued hnode hj, fun heq => ?_⟩, fun node d hnested => ?_⟩
  · obtain ⟨owner, howner, hid⟩ := harranged.parents node hnode _ heq
    exact id_ne_of_issued howner hj hid
  · have hnesting := harranged.isForest.nested_le hnested
    have hheight := (good_of_read hread).height (diagnostics_eq_nil_iff.mp hclean).2
    have hsame := sequenceHeight_outlines harranged.regular_forest
    rw [outlines_forest] at hsame
    omega

/-! ### What comes back -/

section Back

variable (hwritable : store.Writable catalog)
  (hclear : ∀ q ∈ Outline.sequences (Tree.outlines store.forest), Outline.Clear false q)
  (hback : back.outlines =
    Outline.sequenceReread false (Outline.sequenceSettled (Tree.outlines store.forest)))
include hwritable hclear hback

theorem writable_back (j : Nat) : (back.store j).Writable catalog := by
  refine { toArranged := back.arranged_store j, printable := ?_ }
  rw [outlines_forest, hback]
  exact Outline.printable_reread (Outline.printable_settled hwritable.printable)
    (Outline.clear_settled_iff.mpr hclear)

/-- **The functions that come back are those that were written**, with as many arguments, except that a
single empty one is lost. -/
theorem functions_back (j : Nat) :
    List.Forall₂ (fun f g => g.function = f.function ∧ ((back.store j).argumentsOf g.id).length =
        if store.isHollow f then 0 else (store.argumentsOf f.id).length)
      store.functions (back.store j).functions := by
  have harranged := back.arranged_store j
  have hwritten := hwritable.map_functions
    (F := fun node => if store.isHollow node then 0 else (store.argumentsOf node.id).length)
    (G := fun as => (Outline.sole as).length)
    fun t ht hkind => (hwritable.length_sole_argumentOutlines ht hkind).symm
  have hread := harranged.map_functions
    (F := fun node => ((back.store j).argumentsOf node.id).length) (G := List.length)
    fun t ht hkind => by
      rw [Store.Arranged.length_argumentOutlines, ← harranged.map_node_children ht hkind,
        List.length_map]
  rw [outlines_forest, hback,
    Outline.map_length_sequenceCalls_reread some fun q hq => (hclear q hq).2, ← hwritten] at hread
  have hall : List.Forall₂ (· = ·)
      (store.functions.map fun node => (node.function,
        if store.isHollow node then 0 else (store.argumentsOf node.id).length))
      ((back.store j).functions.map fun node =>
        (node.function, ((back.store j).argumentsOf node.id).length)) := by
    rw [List.forall₂_eq_eq_eq]
    exact hread.symm
  rw [List.forall₂_map_left_iff, List.forall₂_map_right_iff] at hall
  refine hall.imp fun f g heq => ?_
  obtain ⟨hname, hlength⟩ := Prod.mk.inj heq
  exact ⟨hname.symm, hlength.symm⟩

/-- The arguments that come back fill the slots of all functions if no function that lost one takes a fixed
number of them. -/
theorem fillsSlots_back_iff (j : Nat)
    (hfills : ∀ f ∈ store.nodes, f.kind = .function → store.FillsSlots f) :
    (∀ g ∈ (back.store j).nodes, g.kind = .function → (back.store j).FillsSlots g) ↔
      ∀ f ∈ store.nodes, f.kind = .function → store.isHollow f = true →
        Signature.fixedArity? f.function = none := by
  have hwritableBack := writable_back hwritable hclear hback j
  have hcalls := functions_back hwritable hclear hback j
  constructor
  · intro hall f hf hkind hhollow
    obtain ⟨g, hg, hname, hlength⟩ :=
      exists_mem_of_forall₂ hcalls (hwritable.mem_functions.mpr ⟨hf, hkind⟩)
    obtain ⟨hmem, hgkind⟩ := hwritableBack.mem_functions.mp hg
    by_contra hfixed
    obtain ⟨count, hcount⟩ := Option.ne_none_iff_exists'.mp hfixed
    -- The function takes the one argument that it had, and comes back with none.
    have hone := (hwritable.fillsSlots_iff hf hkind (hwritable.isFunctionName hf hkind)).mp
      (hfills f hf hkind) count hcount
    have hnone := (hwritableBack.fillsSlots_iff hmem hgkind
      (hwritableBack.isFunctionName hmem hgkind)).mp (hall g hmem hgkind) count (by rw [hname, hcount])
    rw [Store.length_argumentsOf_of_isHollow hhollow] at hone
    rw [if_pos hhollow] at hlength
    omega
  · intro hall g hg hkind
    obtain ⟨f, hf, hname, hlength⟩ :=
      exists_mem_of_forall₂ hcalls.flip (hwritableBack.mem_functions.mpr ⟨hg, hkind⟩)
    obtain ⟨hmem, hfkind⟩ := hwritable.mem_functions.mp hf
    refine (hwritableBack.fillsSlots_iff hg hkind (hwritableBack.isFunctionName hg hkind)).mpr
      fun count hcount => ?_
    rw [hname] at hcount
    have hnot : ¬store.isHollow f = true := fun hhollow => by
      rw [hall f hmem hfkind hhollow] at hcount
      cases hcount
    rw [hlength, if_neg hnot]
    exact (hwritable.fillsSlots_iff hmem hfkind (hwritable.isFunctionName hmem hfkind)).mp
      (hfills f hmem hfkind) count hcount

/-- **What comes back is valid if and only if no function that lost its argument takes a fixed number of
them.** -/
theorem isValid_back_iff (j : Nat) (hwell : store.WellFormed given)
    (hgiven : ∀ c, given = some c → c = catalog) :
    ((back.store j).structureReport given).isValid = true ↔
      ∀ f ∈ store.nodes, f.kind = .function → store.isHollow f = true →
        Signature.fixedArity? f.function = none := by
  rw [← fillsSlots_back_iff hwritable hclear hback j hwell.function]
  constructor
  · exact fun hvalid => (Store.wellFormed_of_isValid hvalid).function
  · intro hfills
    have hroles : (back.store j).roots.map Node.role = store.roots.map Node.role := by
      rw [← Store.map_role_forest, ← Store.map_role_forest, outlines_forest, hback,
        Outline.map_role_reread, Outline.map_role_settled]
      rw [Outline.Clear, Outline.map_role_settled]
      exact hclear _ List.mem_cons_self
    refine ((writable_back hwritable hclear hback j).wellFormed hgiven hfills ?_).isValid
      fun node hnode => id_ne_empty hnode
    rw [hroles]
    exact hwell.roots.imp_left fun hnil => by
      rw [hnil, List.map_nil, List.map_eq_nil_iff] at hroles
      exact hroles

end Back

/-- **Argument slots survive the text after calls were recast**: every function comes back with as many
argument groups as it had, except that a single one that is empty is lost; and the shape of what comes
back is valid if and only if no function that takes a fixed number of arguments lost one. -/
theorem slots_of_recast (placeholder : String) (hids : (catalog.map (·.id)).Nodup)
    (hread : read limit catalog text = .ok formula) (hclean : formula.diagnostics = []) {k : Nat}
    (hrun : Relation.ReflTransGen Session.Recasts
      ⟨formula.store k, k + (formula.store k).size⟩ session)
    (hgiven : ∀ c, given = some c → c = catalog)
    (hvalid : (session.store.structureReport given).isValid = true)
    (hsequences : ∀ issue ∈ (session.store.inferTypes catalog).issues, issue.code ∉ sequenceCodes) :
    ∃ back, read limit catalog (session.store.canonical catalog placeholder) = .ok back ∧
      back.diagnostics = [] ∧ ∀ j,
        List.Forall₂ (fun f g => g.function = f.function ∧
            ((back.store j).argumentsOf g.id).length =
              if session.store.isHollow f then 0 else (session.store.argumentsOf f.id).length)
          session.store.functions (back.store j).functions ∧
        (((back.store j).structureReport given).isValid = true ↔
          ∀ f ∈ session.store.nodes, f.kind = .function → session.store.isHollow f = true →
            Signature.fixedArity? f.function = none) := by
  have hkept := (kept_of_read hids hread hclean k).of_run hrun
  have hwell := Store.wellFormed_of_isValid hvalid
  have hwritable := hkept.writable hwell
  have hclear := hwritable.clear hsequences
  have hheight : (Outline.sequenceHeight (Tree.outlines session.store.forest) : Int) ≤ max limit 0 := by
    have hnesting := Store.nestingAll_forest_le hkept.nested
    rw [sequenceHeight_outlines hwritable.regular_forest]
    omega
  obtain ⟨back, hback, hnothing, houtlines⟩ :=
    read_layout hwritable.printable (fun q hq => (hclear q hq).1) hheight
  rw [← hwritable.canonical_eq placeholder] at hback
  exact ⟨back, hback, hnothing, fun j => ⟨functions_back hwritable hclear houtlines j,
    isValid_back_iff hwritable hclear houtlines j hwell hgiven⟩⟩

/-- A catalog with one attribute. -/
def single : Catalog := [⟨"a", "A", some "number"⟩]

/-- A call of `abs`. -/
def absolute : Formula where
  scan := {
    tokens := [⟨.function "abs", 0⟩, ⟨.opening, 3⟩, ⟨.reference "A", 4⟩, ⟨.closing, 7⟩]
    diagnostics := []
    finish := 8 }
  terms := [.call 0 "abs" (some ⟨3, some 7⟩) [[.reference 4 "a"]]]
  notes := []

theorem read_absolute : read 1 single "abs(\x7bA\x7d)" = .ok absolute := by
  have hname : '}' ∉ "A".toList := by decide
  have hspaced : Spaced [.lexeme (.function "abs"), .lexeme .opening, .lexeme (.reference "A"),
      .lexeme .closing] :=
    ⟨rfl, by decide, trivial, by decide, hname, by decide, trivial, by decide, trivial⟩
  have hpieces : pieces "abs(\x7bA\x7d)".toList = _ := pieces_layout hspaced
  have hscan : Scan.ofText "abs(\x7bA\x7d)" = absolute.scan := by
    rw [Scan.ofText, hpieces]
    rfl
  rw [read_eq, hscan]
  rfl

/-- The call of `abs`, recast. -/
def recastTo (name : String) : Session :=
  ((Session.mk (absolute.store 0) 3).apply (.setFunction "node_1" (some name))).2

theorem recasts_recastTo (name : String) :
    Session.Recasts ⟨absolute.store 0, 0 + (absolute.store 0).size⟩ (recastTo name) :=
  ⟨"node_1", .ofFunction "node_1" none (some "abs"), name, rfl, rfl, rfl⟩

/-- A power with two empty arguments is written with a comma, and comes back with both. -/
theorem slots_of_recast_pow : read 1 single "abs(\x7bA\x7d)" = .ok absolute ∧
    absolute.diagnostics = [] ∧ (recastTo "pow").store.canonical single "?" = "pow(, )" ∧
    ∃ back, read 1 single "pow(, )" = .ok back ∧ back.diagnostics = [] ∧
      List.Forall₂ (fun f g => g.function = f.function ∧ ((back.store 0).argumentsOf g.id).length =
          if (recastTo "pow").store.isHollow f then 0
          else ((recastTo "pow").store.argumentsOf f.id).length)
        (recastTo "pow").store.functions (back.store 0).functions ∧
      ((back.store 0).structureReport (some single)).isValid = true := by
  have htext : (recastTo "pow").store.canonical single "?" = "pow(, )" := by decide
  have hgiven : ∀ c, some single = some c → c = single := fun c hc => (Option.some.inj hc).symm
  obtain ⟨back, hback, hnothing, hslots⟩ := slots_of_recast "?" (by decide) read_absolute rfl
    (.single (recasts_recastTo "pow")) hgiven (by decide) (by decide)
  rw [htext] at hback
  exact ⟨read_absolute, rfl, htext, back, hback, hnothing, (hslots 0).1,
    (hslots 0).2.mpr (by decide)⟩

theorem read_root : read 1 single "sqrt()" =
    .ok ⟨Scan.ofText "sqrt()", [.call 0 "sqrt" (some ⟨4, some 5⟩) []], []⟩ := by
  have hspaced : Spaced [.lexeme (.function "sqrt"), .lexeme .opening, .lexeme .closing] :=
    ⟨rfl, by decide, trivial, by decide, trivial, by decide, trivial⟩
  have hpieces : pieces "sqrt()".toList = _ := pieces_layout hspaced
  refine read_of_readTerms ?_
  rw [Scan.ofText, hpieces]
  rfl

/-- A catalog in which two attributes have one identifier. -/
def shared : Catalog := [⟨"x", "B\x7d,", none⟩, ⟨"x", "A", none⟩]

/-- A call of `sqrt`. -/
def rooted : Formula where
  scan := {
    tokens := [⟨.function "sqrt", 0⟩, ⟨.opening, 4⟩, ⟨.reference "A", 5⟩, ⟨.closing, 8⟩]
    diagnostics := []
    finish := 9 }
  terms := [.call 0 "sqrt" (some ⟨4, some 8⟩) [[.reference 5 "x"]]]
  notes := []

theorem read_rooted : read 1 shared "sqrt(\x7bA\x7d)" = .ok rooted := by
  have hname : '}' ∉ "A".toList := by decide
  have hspaced : Spaced [.lexeme (.function "sqrt"), .lexeme .opening, .lexeme (.reference "A"),
      .lexeme .closing] :=
    ⟨rfl, by decide, trivial, by decide, hname, by decide, trivial, by decide, trivial⟩
  have hpieces : pieces "sqrt(\x7bA\x7d)".toList = _ := pieces_layout hspaced
  have hscan : Scan.ofText "sqrt(\x7bA\x7d)" = rooted.scan := by
    rw [Scan.ofText, hpieces]
    rfl
  rw [read_eq, hscan]
  rfl

theorem pieces_cons {c : Char} {cs rest : List Char} {p : Piece} (h : nextPiece c cs = (p, rest)) :
    pieces (c :: cs) = p :: pieces rest := by
  rw [pieces, h]

theorem pieces_torn : pieces "sqrt(\x7bB\x7d,\x7d)".toList =
    [.lexeme (.function "sqrt"), .lexeme .opening, .lexeme (.reference "B"), .lexeme .comma,
      .dropped (.unexpected '}'), .lexeme .closing] := by
  have hname : nextPiece 's' "qrt(\x7bB\x7d,\x7d)".toList =
    (.lexeme (.function "sqrt"), "(\x7bB\x7d,\x7d)".toList) := by decide +kernel
  have hopening : nextPiece '(' "\x7bB\x7d,\x7d)".toList =
    (.lexeme .opening, "\x7bB\x7d,\x7d)".toList) := by decide +kernel
  have hreference : nextPiece '{' "B\x7d,\x7d)".toList =
    (.lexeme (.reference "B"), ",\x7d)".toList) := by decide +kernel
  have hcomma : nextPiece ',' "\x7d)".toList = (.lexeme .comma, "\x7d)".toList) := by decide +kernel
  have hbrace : nextPiece '}' ")".toList = (.dropped (.unexpected '}'), ")".toList) := by
    decide +kernel
  have hclosing : nextPiece ')' [] = (.lexeme .closing, []) := by decide +kernel
  refine (pieces_cons hname).trans (congrArg _ ?_)
  refine (pieces_cons hopening).trans (congrArg _ ?_)
  refine (pieces_cons hreference).trans (congrArg _ ?_)
  refine (pieces_cons hcomma).trans (congrArg _ ?_)
  refine (pieces_cons hbrace).trans (congrArg _ ?_)
  refine (pieces_cons hclosing).trans (congrArg _ ?_)
  rw [pieces]

theorem read_torn : read 1 shared "sqrt(\x7bB\x7d,\x7d)" =
    .ok ⟨Scan.ofText "sqrt(\x7bB\x7d,\x7d)", [.call 0 "sqrt" (some ⟨4, some 10⟩) [[], []]],
      [⟨.unknownName "B", 5⟩]⟩ := by
  refine read_of_readTerms ?_
  rw [Scan.ofText, pieces_torn]
  rfl

/-- Two ways to lose argument slots: a square root with one empty argument comes back without it, and
where two attributes have one identifier a reference is written under a name that splits a call. -/
theorem not_slots_of_recast :
    (∃ session, Relation.ReflTransGen Session.Recasts
        ⟨absolute.store 0, 0 + (absolute.store 0).size⟩ session ∧
      read 1 single "abs(\x7bA\x7d)" = .ok absolute ∧ absolute.diagnostics = [] ∧
      (session.store.structureReport (some single)).isValid = true ∧
      (session.store.inferTypes single).issues = [] ∧
      ∀ back, read 1 single (session.store.canonical single "?") = .ok back →
        ¬List.Forall₂ (fun f g => ((back.store 0).argumentsOf g.id).length =
            (session.store.argumentsOf f.id).length)
          session.store.functions (back.store 0).functions ∧
        ((back.store 0).structureReport (some single)).isValid = false) ∧
    read 1 shared "sqrt(\x7bA\x7d)" = .ok rooted ∧ rooted.diagnostics = [] ∧
      ((rooted.store 0).structureReport (some shared)).isValid = true ∧
      ((rooted.store 0).inferTypes shared).issues = [] ∧
      ∀ back, read 1 shared ((rooted.store 0).canonical shared "?") = .ok back →
        ¬List.Forall₂ (fun f g => ((back.store 0).argumentsOf g.id).length =
            ((rooted.store 0).argumentsOf f.id).length)
          (rooted.store 0).functions (back.store 0).functions ∧
        ((back.store 0).structureReport (some shared)).isValid = false := by
  refine ⟨⟨recastTo "sqrt", .single (recasts_recastTo "sqrt"), read_absolute, rfl, by decide,
    by decide, fun back hback => ?_⟩, read_rooted, rfl, by decide, by decide, fun back hback => ?_⟩
  · rw [show (recastTo "sqrt").store.canonical single "?" = "sqrt()" by decide, read_root] at hback
    obtain rfl := Except.ok.inj hback
    exact ⟨by decide, by decide⟩
  · rw [show (rooted.store 0).canonical shared "?" = "sqrt(\x7bB\x7d,\x7d)" by decide, read_torn]
      at hback
    obtain rfl := Except.ok.inj hback
    exact ⟨by decide, by decide⟩

end Formula
end Formulary
