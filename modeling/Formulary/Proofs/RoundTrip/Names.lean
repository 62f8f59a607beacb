/-
# Names and identifiers

A name in braces leads to the first attribute that has it, and all that the node for it keeps is the
identifier of this attribute. When the formula is written, and when its types are inferred, the identifier
leads to the first attribute that has it. Since identifiers may repeat, even between a catalog file and
declared attributes, this need not be the attribute of the name. So a name comes back, and counts with the
type of its attribute, if the first attribute with its identifier agrees, and only then
(`Formula.referrals_of_read`).

Key definitions: `Referral`, `Referral.Makes`, `Woven`.
Key theorems: `woven_marks`, `Formula.referrals_of_read`.
-/
import Formulary.Proofs.Catalog.Named
import Formulary.Proofs.Store.Listed
import Formulary.Proofs.Term.Account
import Formulary.Proofs.Typing.Operands

namespace Formulary

/-! ### Texts without braces -/

/-- Whether a text has no braces. -/
def Unbraced (cs : List Char) : Prop :=
  ∀ c ∈ cs, c ≠ '{' ∧ c ≠ '}'

theorem unbraced_of_forall {cs : List Char} {p : Char → Bool} (hopening : p '{' = false)
    (hclosing : p '}' = false) (h : ∀ c ∈ cs, p c = true) : Unbraced cs := by
  intro c hc
  have hp := h c hc
  constructor
  · rintro rfl
    rw [hopening] at hp
    cases hp
  · rintro rfl
    rw [hclosing] at hp
    cases hp

theorem unbraced_of_isWordRun {cs : List Char} (h : isWordRun cs = true) : Unbraced cs := by
  cases cs with
  | nil => cases h
  | cons c cs =>
    refine unbraced_of_forall (p := fun c => continuesWord c || isSymbol c) (by decide +kernel)
      (by decide +kernel) ?_
    rw [isWordRun, Bool.and_eq_true] at h
    have hrun := h.2
    refine List.forall_mem_cons.mpr ?_
    by_cases hstart : startsWord c = true
    · rw [if_pos hstart, List.all_eq_true] at hrun
      have hc : continuesWord c = true := by
        simp only [startsWord, continuesWord, Bool.or_eq_true] at hstart ⊢
        tauto
      exact ⟨by rw [hc]; rfl, fun d hd => by rw [hrun d hd]; rfl⟩
    · rw [if_neg hstart, Bool.and_eq_true, List.all_eq_true] at hrun
      exact ⟨by rw [hrun.1, Bool.or_true], fun d hd => by rw [hrun.2 d hd, Bool.or_true]⟩

/-- A number is written with digits and a point only. -/
theorem Number.Plain.unbraced {n : Number} (h : n.Plain) : Unbraced n.text := by
  obtain ⟨d, ds, htext, hd, hds⟩ := Number.text_shape h
  rw [htext]
  exact unbraced_of_forall (by decide +kernel) (by decide +kernel)
    (List.forall_mem_cons.mpr ⟨Number.continuesNumber_of_isDigit hd, hds⟩)

/-- Texts in their order, with others between them that have no braces. -/
inductive Woven : List (List Char) → List Char → Prop
  | nil : Woven [] []
  | char {parts cs c} (hc : c ≠ '{' ∧ c ≠ '}') (h : Woven parts cs) : Woven parts (c :: cs)
  | part {parts cs} (part : List Char) (h : Woven parts cs) : Woven (part :: parts) (part ++ cs)

theorem Woven.append {parts : List (List Char)} {front cs : List Char} (hfront : Unbraced front)
    (h : Woven parts cs) : Woven parts (front ++ cs) := by
  induction front with
  | nil => exact h
  | cons c front ih =>
    obtain ⟨hc, hrest⟩ := List.forall_mem_cons.mp hfront
    exact .char hc (ih hrest)

/-! ### References among marks and nodes -/

/-- The identifier in a mark for a reference. -/
def Mark.reference? : Mark → Option String
  | reference id => some id
  | _ => none

/-- The identifier in a reference. -/
def Node.referred? (node : Node) : Option String :=
  if node.kind = .reference then node.reference else none

/-- The references of a layout are woven with texts that have no braces. -/
theorem woven_marks {catalog : Catalog} {ms : List Mark}
    (h : ∀ m ∈ ms, m.reference? = none → Unbraced (m.text catalog)) :
    Woven ((ms.filterMap Mark.reference?).map fun id => (Mark.reference id).text catalog)
      (ms.flatMap (Mark.text catalog)) := by
  induction ms with
  | nil => exact .nil
  | cons m rest ih =>
    have ih := ih fun n hn => h n (List.mem_cons_of_mem m hn)
    rw [List.flatMap_cons]
    cases hm : m.reference? with
    | none =>
      rw [List.filterMap_cons_none hm]
      exact Woven.append (h m List.mem_cons_self hm) ih
    | some id =>
      obtain rfl : m = .reference id := by
        cases m with
        | reference other => exact congrArg Mark.reference (Option.some.inj hm)
        | _ => cases hm
      exact .part _ ih

namespace Outline

theorem references_sequenceMarks_cons (o : Outline) (rest : List Outline) :
    (sequenceMarks (o :: rest)).filterMap Mark.reference? =
      o.marks.filterMap Mark.reference? ++ (sequenceMarks rest).filterMap Mark.reference? := by
  cases rest with
  | nil => exact (List.append_nil _).symm
  | cons u rest =>
    rw [sequenceMarks_cons_cons, List.filterMap_append]
    rfl

theorem references_argumentMarks_cons (a : List Outline) (rest : List (List Outline)) :
    (argumentMarks (a :: rest)).filterMap Mark.reference? =
      (sequenceMarks a).filterMap Mark.reference? ++
        (argumentMarks rest).filterMap Mark.reference? := by
  cases rest with
  | nil => exact (List.append_nil _).symm
  | cons b rest =>
    rw [argumentMarks_cons_cons, List.filterMap_append]
    rfl

end Outline

namespace Term

open Outline

mutual

theorem references_nodes (parent : Option String) (k : Nat) : ∀ term : Term,
    (nodes parent k term).filterMap Node.referred? =
      term.outline.marks.filterMap Mark.reference?
  | reference _ _ => rfl
  | operator _ _ => rfl
  | value _ _ => rfl
  | call _ _ _ arguments => by
    have ih := references_argumentNodes (nodeId (k + 1)) 0 (k + 1) arguments
    rw [nodes, outline, marks, List.filterMap_cons_none rfl, ih, List.cons_append,
      List.filterMap_cons_none rfl, List.cons_append, List.filterMap_cons_none rfl,
      List.filterMap_append]
    exact (List.append_nil _).symm
  | group _ body => by
    have ih := references_sequenceNodes (some (nodeId (k + 1))) (k + 1) body
    rw [nodes, outline, marks, List.filterMap_cons_none rfl, ih, List.cons_append,
      List.filterMap_cons_none rfl, List.filterMap_append]
    exact (List.append_nil _).symm

/-- The references among the nodes of terms are those of the layout of their outlines. -/
theorem references_sequenceNodes (parent : Option String) (k : Nat) : ∀ terms : List Term,
    (sequenceNodes parent k terms).filterMap Node.referred? =
      (sequenceMarks (outlines terms)).filterMap Mark.reference?
  | [] => rfl
  | term :: rest => by
    rw [sequenceNodes, outlines, List.filterMap_append, references_sequenceMarks_cons,
      references_nodes parent k term, references_sequenceNodes _ _ rest]

theorem references_argumentNodes (owner : String) (slot k : Nat) : ∀ arguments : List (List Term),
    (argumentNodes owner slot k arguments).filterMap Node.referred? =
      (argumentMarks (argumentOutlines arguments)).filterMap Mark.reference?
  | [] => rfl
  | argument :: rest => by
    rw [argumentNodes, argumentOutlines, List.cons_append, List.filterMap_cons_none rfl,
      List.filterMap_append, references_argumentMarks_cons,
      references_sequenceNodes _ _ argument, references_argumentNodes _ _ _ rest]

end

end Term

/-! ### Names that lead to attributes -/

/-- Whether a token has a name that leads to an attribute. -/
def Token.refers (catalog : Catalog) (t : Token) : Bool :=
  match t.lexeme with
  | .reference name => (catalog.findByName? name).isSome
  | _ => false

/-- A token with a name that leads to an attribute. -/
structure Referral (catalog : Catalog) where
  token : Token
  name : String
  /-- The attribute that the name leads to. -/
  found : Attribute
  /-- The attribute that the identifier of `found` leads to. -/
  first : Attribute
  lexeme_token : token.lexeme = .reference name
  findByName : catalog.findByName? name = some found
  lookup : catalog.lookup? found.id = some first

namespace Referral

variable {catalog : Catalog}

/-- What is written for the name. -/
def written (r : Referral catalog) : List Char :=
  Lexeme.spelling (.reference r.first.name)

/-- What becomes of a node for the name: how it is written, and the type that is inferred for it. -/
structure Makes (r : Referral catalog) (placeholder : String) (types : List (String × DataType))
    (node : Node) : Prop where
  reference : node.reference = some r.found.id
  text : Tree.text catalog placeholder (.mk node []) = r.written
  type : types.lookup node.id = some (.ofDeclared r.first.declared)
  /-- The token comes back if the first attribute has its name, and only then. -/
  text_iff : Tree.text catalog placeholder (.mk node []) = r.token.lexeme.spelling ↔
    r.first.name = r.name
  /-- The type is that of the attribute if the first attribute has it, and only then. -/
  type_iff : types.lookup node.id = some (.ofDeclared r.found.declared) ↔
    DataType.ofDeclared r.first.declared = .ofDeclared r.found.declared
  /-- Both hold of an attribute that is itself the first with its identifier. -/
  own : catalog.lookup? r.found.id = some r.found →
    Tree.text catalog placeholder (.mk node []) = r.token.lexeme.spelling ∧
      types.lookup node.id = some (.ofDeclared r.found.declared)

theorem exists_of_refers {t : Token} (h : t.refers catalog = true) :
    ∃ r : Referral catalog, r.token = t := by
  unfold Token.refers at h
  split at h
  · next name hlexeme =>
    obtain ⟨found, hfound⟩ := Option.isSome_iff_exists.mp h
    obtain ⟨first, hfirst⟩ := Option.isSome_iff_exists.mp
      (Catalog.isSome_lookup?_of_mem (List.mem_of_find?_eq_some hfound))
    exact ⟨⟨t, name, found, first, hlexeme, hfound, hfirst⟩, rfl⟩
  · cases h

/-- Tokens have referrals for all their names that lead to attributes. -/
theorem exists_map_token (catalog : Catalog) (tokens : List Token) :
    ∃ referrals : List (Referral catalog),
      referrals.map (·.token) = tokens.filter (Token.refers catalog) := by
  induction tokens with
  | nil => exact ⟨[], rfl⟩
  | cons t rest ih =>
    obtain ⟨referrals, htokens⟩ := ih
    by_cases h : t.refers catalog = true
    · obtain ⟨r, rfl⟩ := exists_of_refers h
      exact ⟨r :: referrals, by rw [List.filter_cons_of_pos h, ← htokens]; rfl⟩
    · exact ⟨referrals, by rw [List.filter_cons_of_neg h, htokens]⟩

theorem text_reference (r : Referral catalog) :
    (Mark.reference r.found.id).text catalog = r.written := by
  simp [Mark.text, Mark.piece, Piece.text, r.lookup, written]

theorem makes (r : Referral catalog) (hid : r.found.id ≠ "") (placeholder : String)
    {types : List (String × DataType)} {node : Node} (hkind : node.kind = .reference)
    (hreference : node.reference = some r.found.id)
    (htype : types.lookup node.id = some (Typed.reference catalog node).type) :
    r.Makes placeholder types node := by
  have htext : Tree.text catalog placeholder (.mk node []) = r.written := by
    rw [Tree.text, hkind, hreference, ← r.text_reference]
    exact (Tree.text_reference ⟨hid, by rw [r.lookup]; rfl⟩).symm
  have htype : types.lookup node.id = some (.ofDeclared r.first.declared) := by
    rw [htype, Typed.reference, hreference]
    simp only [hid, if_false, r.lookup]
  have hspelling : r.written = r.token.lexeme.spelling ↔ r.first.name = r.name := by
    simp [written, r.lexeme_token, Lexeme.spelling, String.toList_inj]
  refine ⟨hreference, htext, htype, by rw [htext, hspelling], by rw [htype, Option.some_inj], ?_⟩
  intro hown
  have hfirst : r.first = r.found := Option.some.inj (r.lookup.symm.trans hown)
  have hname : r.found.name = r.name := by
    simpa using List.find?_some r.findByName
  rw [htext, hspelling, htype, hfirst]
  exact ⟨hname, rfl⟩

end Referral

theorem Token.refers_iff_of_makes {catalog : Catalog} {t : Token} {node : Node}
    (h : t.lexeme.Makes catalog node) : t.refers catalog = true ↔ node.kind = .reference := by
  obtain ⟨l, position⟩ := t
  cases l with
  | function name => rcases h with h | h <;> simp [refers, h]
  | operator symbol => simp [refers, h.1]
  | value literal number => simp [refers, h.1]
  | reference name =>
    obtain ⟨found, hfound, hkind, -⟩ := h
    simp [refers, hfound, hkind]
  | opening => exact h.elim
  | closing => exact h.elim
  | comma => exact h.elim

theorem Token.contributes_of_refers {catalog : Catalog} {t : Token} (h : t.refers catalog = true) :
    t.lexeme.contributes catalog = true := by
  unfold refers at h
  split at h
  · next name hlexeme =>
    rw [hlexeme]
    exact h
  · cases h

/-! ### The references of a formula -/

/-- What is read can be written, whatever the identifiers are that the catalog repeats. -/
theorem Outline.Scanned.written {catalog : Catalog} (hids : ∀ a ∈ catalog, a.id ≠ "") {o : Outline}
    (h : o.Scanned catalog) : ∀ m ∈ o.own, m.Written catalog ∧
      (m.reference? = none → Unbraced (m.text catalog)) := by
  intro m hm
  cases o with
  | reference id =>
    obtain rfl := Option.some.inj hm
    obtain ⟨name, found, -, hfound, rfl⟩ := h
    have hmem : found ∈ catalog := List.mem_of_find?_eq_some hfound
    exact ⟨⟨hids found hmem, Catalog.isSome_lookup?_of_mem hmem⟩, fun hnone => by cases hnone⟩
  | operator symbol =>
    obtain rfl := Option.some.inj hm
    refine ⟨.inr h, fun _ => ?_⟩
    rw [Tree.text_word]
    exact unbraced_of_isWordRun (isWordRun_of_isOperator h)
  | value number =>
    obtain rfl := Option.some.inj hm
    refine ⟨Number.exists_value_of_plain h, fun _ => ?_⟩
    rw [Tree.text_value]
    exact Number.Plain.unbraced h
  | call name arguments =>
    obtain rfl := Option.some.inj hm
    refine ⟨.inl h, fun _ => ?_⟩
    rw [Tree.text_word]
    exact unbraced_of_isWordRun (isWordRun_of_isFunctionName h)
  | group body => cases hm

namespace Formula

variable {limit : Int} {catalog : Catalog} {text : String} {formula : Formula}

/-- The references of a formula are those of the names that lead to attributes, in their order. -/
theorem references_of_read (h : read limit catalog text = .ok formula) (k : Nat)
    {referrals : List (Referral catalog)}
    (htokens : referrals.map (·.token) = formula.scan.tokens.filter (Token.refers catalog)) :
    List.Forall₂ (fun r node => node.kind = .reference ∧ node.reference = some r.found.id) referrals
      ((formula.store k).nodes.filter (·.kind = .reference)) := by
  have hfiltered := List.rel_filter (p := Token.refers catalog)
    (q := fun node : Node => decide (node.kind = .reference))
    (fun t node hmakes => by simpa using Token.refers_iff_of_makes hmakes) (makes_of_read h k)
  have hleft : (formula.scan.tokens.filter fun t => t.lexeme.contributes catalog).filter
      (Token.refers catalog) = referrals.map (·.token) := by
    rw [htokens, List.filter_filter]
    refine List.filter_congr fun t _ => ?_
    by_cases hrefers : t.refers catalog = true
    · rw [hrefers, Token.contributes_of_refers hrefers]
      rfl
    · simp [hrefers]
  have hright : ((formula.store k).nodes.filter fun node => node.kind ≠ .group).filter
      (fun node => decide (node.kind = .reference)) =
      (formula.store k).nodes.filter (·.kind = .reference) := by
    rw [List.filter_filter]
    refine List.filter_congr fun node _ => ?_
    by_cases hkind : node.kind = .reference <;> simp [hkind]
  rw [hleft, hright, List.forall₂_map_left_iff] at hfiltered
  refine hfiltered.imp fun r node hmakes => ?_
  rw [r.lexeme_token] at hmakes
  obtain ⟨found, hfound, hkind, hreference⟩ := hmakes
  obtain rfl := Option.some.inj (r.findByName.symm.trans hfound)
  exact ⟨hkind, hreference⟩

/-- The canonical text is woven of what is written for the references, in the order of the nodes. -/
theorem woven_canonical (h : read limit catalog text = .ok formula) (hids : ∀ a ∈ catalog, a.id ≠ "")
    (placeholder : String) (k : Nat) :
    Woven (((formula.store k).nodes.filterMap Node.referred?).map fun id =>
      (Mark.reference id).text catalog) ((formula.store k).canonical catalog placeholder).toList := by
  have hframe : ∀ m ∈ [Mark.blank, .opening, .closing, .comma], m.Written catalog ∧
      (m.reference? = none → Unbraced (m.text catalog)) := by
    simp [Mark.Written, Unbraced, Mark.text, Mark.piece, Piece.text, Lexeme.spelling]
  have hmarks := (Outline.forall_mem_sequenceMarks hframe formula.outlines).mpr fun q hq o ho =>
    (((good_of_read h).fine q hq).scanned o ho).written hids
  have hreferences := Term.references_sequenceNodes none k formula.terms
  rw [canonical_of_written (fun m hm => (hmarks m hm).1), String.toList_ofList, Tree.layoutText,
    store, Store.ofTerms, hreferences]
  exact woven_marks fun m hm => (hmarks m hm).2

theorem filterMap_referred? {nodes : List Node} {referrals : List (Referral catalog)}
    (h : List.Forall₂ (fun r node => node.kind = .reference ∧ node.reference = some r.found.id)
      referrals (nodes.filter (·.kind = .reference))) :
    nodes.filterMap Node.referred? = referrals.map (·.found.id) := by
  have hfilter : nodes.filterMap Node.referred? =
      (nodes.filter (·.kind = .reference)).filterMap (·.reference) := by
    rw [List.filterMap_filter]
    simp only [decide_eq_true_eq]
    rfl
  rw [hfilter]
  generalize nodes.filter (·.kind = .reference) = references at h
  induction h with
  | nil => rfl
  | cons hreference _ ih => rw [List.filterMap_cons_some hreference.2, ih, List.map_cons]

/-- What becomes of the names in a text, if the identifiers of the catalog are not empty. -/
theorem referrals_of_ids (hids : ∀ a ∈ catalog, a.id ≠ "")
    (h : read limit catalog text = .ok formula) (placeholder : String) (k : Nat) :
    ∃ referrals : List (Referral catalog),
      referrals.map (·.token) = (Scan.ofText text).tokens.filter (Token.refers catalog) ∧
      List.Forall₂ (fun r node => r.Makes placeholder ((formula.store k).inferTypes catalog).types node)
        referrals ((formula.store k).nodes.filter (·.kind = .reference)) ∧
      Woven (referrals.map (·.written))
        ((formula.store k).canonical catalog placeholder).toList := by
  obtain ⟨referrals, htokens⟩ := Referral.exists_map_token catalog (Scan.ofText text).tokens
  rw [← (readTerms_of_read h).1] at htokens ⊢
  have hreferences := references_of_read h k htokens
  refine ⟨referrals, htokens, ?_, ?_⟩
  · have hlisted : (formula.store k).Listed := Store.listed_ofTerms k formula.terms
    have htypes : ∀ node ∈ (formula.store k).nodes.filter (·.kind = .reference),
        ((formula.store k).inferTypes catalog).types.lookup node.id =
          some (Typed.reference catalog node).type := fun node hnode => by
      obtain ⟨hmem, hkind⟩ := List.mem_filter.mp hnode
      exact hlisted.lookup_reference (fun _ => hlisted.nodup_slots) catalog hmem
        (of_decide_eq_true hkind)
    have hboth := ((List.forall₂_and_left _ _).mpr ⟨htypes, hreferences.flip⟩).flip
    refine hboth.imp fun r node ⟨htype, hkind, hreference⟩ => ?_
    have hmem : r.found ∈ catalog := List.mem_of_find?_eq_some r.findByName
    exact r.makes (hids r.found hmem) placeholder hkind hreference htype
  · have hwoven := woven_canonical h hids placeholder k
    have htexts : (referrals.map (·.found.id)).map (fun id => (Mark.reference id).text catalog) =
        referrals.map (·.written) := by
      rw [List.map_map]
      exact List.map_congr_left fun r _ => r.text_reference
    rw [filterMap_referred? hreferences, htexts] at hwoven
    exact hwoven

/-- **What becomes of the names in a text under the catalog of a command.** Each token with a name that
leads to an attribute makes one reference, in the order of the text, with the identifier of the attribute.
It is written with the name of the first attribute that has the identifier, and it has the type that is
declared there; the canonical text has what is written for the references in their order, and no other
braces. -/
theorem referrals_of_read {file : Option String} {declarations : List String}
    {fromFile declared : Catalog} (hfile : Command.fileAttributes file = .ok fromFile)
    (hdeclared : Command.declaredAttributes declarations = .ok declared)
    (hread : read limit (fromFile ++ declared) text = .ok formula) (placeholder : String) (k : Nat) :
    ∃ referrals : List (Referral (fromFile ++ declared)),
      referrals.map (·.token) =
        (Scan.ofText text).tokens.filter (Token.refers (fromFile ++ declared)) ∧
      List.Forall₂ (fun r node => r.Makes placeholder
          ((formula.store k).inferTypes (fromFile ++ declared)).types node)
        referrals ((formula.store k).nodes.filter (·.kind = .reference)) ∧
      Woven (referrals.map (·.written))
        ((formula.store k).canonical (fromFile ++ declared) placeholder).toList :=
  referrals_of_ids (fun a ha => (Command.named_append hfile hdeclared a ha).1) hread placeholder k

/-- A file with an attribute whose identifier is another word than its name. -/
def crossedFile : String :=
  "[\x7b\"id\": \"B\", \"name\": \"A\", \"type\": \"number\"\x7d]"

theorem ok_of_toOption {ε α : Type} {e : Except ε α} {a : α} (h : e.toOption = some a) :
    e = .ok a := by
  cases e with
  | error _ => cases h
  | ok b => exact congrArg Except.ok (Option.some.inj h)

theorem fileAttributes_crossed :
    Command.fileAttributes (some crossedFile) = .ok [⟨"B", "A", some "number"⟩] := by
  have hfile : Catalog.ofFile crossedFile = .ok [⟨"B", "A", some "number"⟩] :=
    ok_of_toOption (by decide +kernel)
  rw [Catalog.ofFile] at hfile
  rw [Command.fileAttributes, Command.attributesIn, hfile]

theorem declaredAttributes_crossed : Command.declaredAttributes ["B=string", "C=boolean"] =
    .ok [⟨"B", "B", some "string"⟩, ⟨"C", "C", some "boolean"⟩] :=
  ok_of_toOption (by decide +kernel)

theorem pieces_crossed : pieces "\x7bB\x7d\x7bC\x7d".toList =
    [.lexeme (.reference "B"), .lexeme (.reference "C")] := by
  have hfirst : '}' ∉ "B".toList := by decide
  have hsecond : '}' ∉ "C".toList := by decide
  have hspaced : Spaced [.lexeme (.reference "B"), .lexeme (.reference "C")] :=
    ⟨hfirst, by decide, hsecond, by decide, trivial⟩
  exact pieces_layout hspaced

/-- The catalog of the file and of two declared attributes, one of which has the name for its identifier
that the attribute of the file has for its own. -/
def crossed : Catalog :=
  [⟨"B", "A", some "number"⟩] ++ [⟨"B", "B", some "string"⟩, ⟨"C", "C", some "boolean"⟩]

theorem read_crossed : read 0 crossed "\x7bB\x7d\x7bC\x7d" = .ok
    ⟨Scan.ofText "\x7bB\x7d\x7bC\x7d", [.reference 0 "B", .reference 3 "C"], []⟩ := by
  refine read_of_readTerms ?_
  rw [Scan.ofText, pieces_crossed]
  rfl

/-- `B` leads to a declared attribute whose identifier the file has given to `A`, while `C` is the only
one with its own. -/
theorem referrals_crossed : ∃ formula, read 0 crossed "\x7bB\x7d\x7bC\x7d" = .ok formula ∧
    (formula.store 0).canonical crossed "?" = "\x7bA\x7d \x7bC\x7d" ∧
    ∃ referrals : List (Referral crossed),
      referrals.map (·.token) = [⟨.reference "B", 0⟩, ⟨.reference "C", 3⟩] ∧
      List.Forall₂ (fun r node => r.Makes "?" ((formula.store 0).inferTypes crossed).types node)
        referrals (formula.store 0).nodes ∧
      Woven (referrals.map (·.written)) "\x7bA\x7d \x7bC\x7d".toList := by
  obtain ⟨referrals, htokens, hmakes, hwoven⟩ :=
    referrals_of_read fileAttributes_crossed declaredAttributes_crossed read_crossed "?" 0
  rw [Scan.ofText, pieces_crossed] at htokens
  exact ⟨_, read_crossed, by decide, referrals, htokens, hmakes, hwoven⟩

theorem pieces_name : pieces "\x7bB\x7d".toList = [.lexeme (.reference "B")] := by
  have hname : '}' ∉ "B".toList := by decide
  have hspaced : Spaced [.lexeme (.reference "B")] := ⟨hname, by decide, trivial⟩
  exact pieces_layout hspaced

/-- A name need not come back, nor does its attribute give the type: the name `B` leads to a string, and
what is written is `A`, which is a number. -/
theorem not_comes_back_crossed : ∃ formula,
    Command.fileAttributes (some crossedFile) = .ok [⟨"B", "A", some "number"⟩] ∧
    Command.declaredAttributes ["B=string", "C=boolean"] =
      .ok [⟨"B", "B", some "string"⟩, ⟨"C", "C", some "boolean"⟩] ∧
    read 0 crossed "\x7bB\x7d" = .ok formula ∧
    formula.scan.tokens = [⟨.reference "B", 0⟩] ∧
    crossed.findByName? "B" = some ⟨"B", "B", some "string"⟩ ∧
    DataType.ofDeclared (some "string") = .string ∧
    (formula.store 0).nodes = [.ofReference "node_1" none (some "B")] ∧
    (formula.store 0).canonical crossed "?" = "\x7bA\x7d" ∧
    ((formula.store 0).inferTypes crossed).types.lookup "node_1" = some .number := by
  have hscan : (Scan.ofText "\x7bB\x7d").tokens = [⟨.reference "B", 0⟩] := by
    rw [Scan.ofText, pieces_name]
    rfl
  have hread : read 0 crossed "\x7bB\x7d" =
      .ok ⟨Scan.ofText "\x7bB\x7d", [.reference 0 "B"], []⟩ := by
    refine read_of_readTerms ?_
    rw [hscan]
    rfl
  exact ⟨_, fileAttributes_crossed, declaredAttributes_crossed, hread, hscan, by decide, by decide,
    by decide, by decide, by decide⟩

end Formula
end Formulary
