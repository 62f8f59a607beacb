/-
# Every token is accounted for

Whatever the tokens are, none is lost, doubled or moved. A token that makes no node is a parenthesis, a
comma between the arguments of a call, or it is noted; and a parenthesis that is never closed is noted as
such (`Formula.accounts_of_read`). Nothing is noted twice at one place: a run moves the places of the
tokens ahead to those of open parentheses and from there to the notes, and adds none
(`Progress.Run.weight_le`), so that all diagnostics of a text have different places.

Key definitions: `openBehind`, `Accounted`, `Lexeme.Makes`, `Formula.Accounts`.
Key theorems: `Progress.Run.weight_le`, `Progress.Run.accounted`, `Formula.accounts_of_read`.
-/
import Formulary.Proofs.RoundTrip.Layout
import Formulary.Proofs.Term.Sites

namespace Formulary

open Term

/-! ### Open parentheses -/

/-- The places of the parentheses that are open behind a token, innermost first, given those that are
open in front of it. -/
def Token.openBehind (stack : List Nat) (t : Token) : List Nat :=
  match t.lexeme with
  | .opening => t.position :: stack
  | .closing => stack.tail
  | _ => stack

/-- The places of the parentheses that are open behind tokens, innermost first. -/
def openBehind (tokens : List Token) : List Nat :=
  tokens.foldl Token.openBehind []

/-- What becomes of a token behind the open parentheses `stack`, where `noted` are the places of notes. -/
inductive Accounted (catalog : Catalog) (sites : List Site) (noted : Nat → Prop)
    (stack : List Nat) : Token → Prop
  /-- A node is made for it. -/
  | node {t} (h : t.lexeme.contributes catalog = true) : Accounted catalog sites noted stack t
  | opening {position} : Accounted catalog sites noted stack ⟨.opening, position⟩
  /-- It closes a parenthesis. -/
  | closing {position} (h : stack ≠ []) : Accounted catalog sites noted stack ⟨.closing, position⟩
  /-- It stands right inside the parentheses of a call. -/
  | comma {position opening start name} (hstack : stack.head? = some opening)
      (hcall : Site.call start name (some opening) ∈ sites) :
      Accounted catalog sites noted stack ⟨.comma, position⟩
  | fault {t} (h : noted t.position) : Accounted catalog sites noted stack t

/-- Whether all tokens behind the open parentheses `stack` are accounted for. -/
def AllAccounted (catalog : Catalog) (sites : List Site) (noted : Nat → Prop) :
    List Nat → List Token → Prop
  | _, [] => True
  | stack, t :: rest =>
    Accounted catalog sites noted stack t ∧ AllAccounted catalog sites noted (t.openBehind stack) rest

/-- What holds of all tokens holds of each, behind the parentheses that are open in front of it. -/
theorem AllAccounted.at_token {catalog : Catalog} {sites : List Site} {noted : Nat → Prop}
    {before rest : List Token} {t : Token} {stack : List Nat}
    (h : AllAccounted catalog sites noted stack (before ++ t :: rest)) :
    Accounted catalog sites noted (before.foldl Token.openBehind stack) t := by
  induction before generalizing stack with
  | nil => exact h.1
  | cons u before ih => exact ih h.2

/-- What is noted when the parenthesis of a site is never closed. -/
def Site.unclosed? : Site → Option Diagnostic
  | call _ name (some opening) => some ⟨.unclosedCall name, opening⟩
  | group opening => some ⟨.unclosedGroup, opening⟩
  | _ => none

/-! ### What a run does -/

namespace Progress

variable {limit : Int} {catalog : Catalog} {s s' : Progress} {tokens tokens' : List Token}

/-- The places of the parentheses that are open, innermost first. -/
def openings (s : Progress) : List Nat :=
  s.frames.map Frame.opening

/-- How often a place is that of a token ahead, of an open parenthesis, or of a note. -/
def weight (place : Nat) (tokens : List Token) (s : Progress) : Nat :=
  (Token.positions tokens).count place + s.openings.count place +
    (Diagnostic.positions s.notes).count place

theorem weight_cons (t : Token) (place : Nat) :
    weight place (t :: tokens) s = weight place tokens s + if t.position = place then 1 else 0 := by
  simp only [weight, Token.positions, List.map_cons, List.count_cons, beq_iff_eq]
  omega

theorem weight_push (term : Term) (place : Nat) :
    weight place tokens (s.push term) = weight place tokens s :=
  rfl

theorem weight_note (fault : Fault) (position place : Nat) :
    weight place tokens (s.note fault position) =
      weight place tokens s + if position = place then 1 else 0 := by
  simp only [weight, openings, note, Diagnostic.positions, List.map_cons, List.count_cons, beq_iff_eq]
  omega

theorem weight_enter (opened : Opened) (opening place : Nat) :
    weight place tokens (s.enter opened opening) =
      weight place tokens s + if opening = place then 1 else 0 := by
  simp only [weight, openings, enter, List.map_cons, List.count_cons, beq_iff_eq]
  omega

theorem weight_leave_le (position place : Nat) :
    weight place tokens (s.leave position) ≤
      weight place tokens s + if position = place then 1 else 0 := by
  obtain ⟨_ | ⟨frame, frames⟩, body, notes⟩ := s
  · exact Nat.le_of_eq (weight_note .unmatchedClosing position place)
  · simp only [weight, openings, leave, List.map_cons, List.count_cons]
    omega

theorem weight_separate_le (position place : Nat) :
    weight place tokens (s.separate position) ≤
      weight place tokens s + if position = place then 1 else 0 := by
  obtain ⟨_ | ⟨⟨⟨start, name, arguments⟩ | _, opening, outer⟩, frames⟩, body, notes⟩ := s
  · exact Nat.le_of_eq (weight_note .strayComma position place)
  · exact Nat.le_add_right _ _
  · exact Nat.le_of_eq (weight_note .strayComma position place)

theorem weight_refer_le (name : String) (position place : Nat) :
    weight place tokens (s.refer catalog name position) ≤
      weight place tokens s + if position = place then 1 else 0 := by
  unfold refer
  split
  · exact Nat.le_add_right _ _
  · exact Nat.le_of_eq (weight_note _ position place)

/-- What a step notes or opens is at the place of a token that it takes. -/
theorem Step.weight_le (hstep : Step limit catalog tokens s tokens' s') (place : Nat) :
    weight place tokens' s' ≤ weight place tokens s := by
  cases hstep with
  | reference =>
    rw [weight_cons]
    exact weight_refer_le _ _ place
  | closing =>
    rw [weight_cons]
    exact weight_leave_le _ place
  | comma =>
    rw [weight_cons]
    exact weight_separate_le _ place
  | _ =>
    simp only [weight_cons, weight_push, weight_note, weight_enter]
    omega

/-- **A run adds no places**: what is noted, and what is open, is at the places of the tokens. -/
theorem Run.weight_le (hrun : Run limit catalog tokens s s') (place : Nat) :
    weight place [] s' ≤ weight place tokens s := by
  induction hrun with
  | done => exact Nat.le_refl _
  | step hstep _ ih => exact ih.trans (hstep.weight_le place)

theorem Run.sites_subset (hrun : Run limit catalog tokens s s') : s.sites ⊆ s'.sites := by
  obtain ⟨added, hadded, -⟩ := hrun.sites
  rw [hadded]
  exact List.subset_append_left _ _

section Accounted

variable {sites : List Site} {noted : Nat → Prop}

theorem accounted_leave {position : Nat} (hnoted : ∀ d ∈ (s.leave position).notes, noted d.position)
    (h : AllAccounted catalog sites noted (s.leave position).openings tokens) :
    AllAccounted catalog sites noted s.openings (⟨.closing, position⟩ :: tokens) := by
  obtain ⟨_ | ⟨frame, frames⟩, body, notes⟩ := s
  · exact ⟨.fault (hnoted _ List.mem_cons_self), h⟩
  · exact ⟨.closing (List.cons_ne_nil _ _), h⟩

theorem accounted_separate {position : Nat} (hsites : (s.separate position).sites ⊆ sites)
    (hnoted : ∀ d ∈ (s.separate position).notes, noted d.position)
    (h : AllAccounted catalog sites noted (s.separate position).openings tokens) :
    AllAccounted catalog sites noted s.openings (⟨.comma, position⟩ :: tokens) := by
  obtain ⟨_ | ⟨⟨⟨start, name, arguments⟩ | _, opening, outer⟩, frames⟩, body, notes⟩ := s
  · exact ⟨.fault (hnoted _ List.mem_cons_self), h⟩
  · refine ⟨.comma rfl (hsites (a := .call start name (some opening)) ?_), h⟩
    simp [Progress.sites, separate, framesSites, openedSites]
  · exact ⟨.fault (hnoted _ List.mem_cons_self), h⟩

/-- The tokens that a step takes are accounted for by what it leaves. -/
theorem Step.accounted (hstep : Step limit catalog tokens s tokens' s') (hsites : s'.sites ⊆ sites)
    (hnoted : ∀ d ∈ s'.notes, noted d.position)
    (h : AllAccounted catalog sites noted s'.openings tokens') :
    AllAccounted catalog sites noted s.openings tokens := by
  cases hstep with
  | word hword => rcases hword with ⟨rfl, -⟩ | rfl <;> exact ⟨.node rfl, h⟩
  | @reference name position _ _ =>
    unfold refer at hnoted h
    cases hfound : catalog.findByName? name with
    | none =>
      rw [hfound] at hnoted h
      exact ⟨.fault (hnoted _ List.mem_cons_self), h⟩
    | some found =>
      rw [hfound] at h
      exact ⟨.node (by rw [Lexeme.contributes, hfound]; rfl), h⟩
  | value => exact ⟨.node rfl, h⟩
  | missing => exact ⟨.node rfl, h⟩
  | bareCall => exact ⟨.node rfl, .opening, .closing (List.cons_ne_nil _ _), h⟩
  | unclosed => exact ⟨.node rfl, .opening, trivial⟩
  | call => exact ⟨.node rfl, .opening, h⟩
  | opening => exact ⟨.opening, h⟩
  | closing => exact accounted_leave hnoted h
  | comma => exact accounted_separate hsites hnoted h

/-- **All tokens of a run are accounted for**: those that make no node, by what it notes at the end and by
the sites that it has then. -/
theorem Run.accounted (hrun : Run limit catalog tokens s s') (hsites : s'.sites ⊆ sites)
    (hnoted : ∀ d ∈ s'.notes, noted d.position) :
    AllAccounted catalog sites noted s.openings tokens := by
  induction hrun with
  | done => trivial
  | step hstep hrest ih =>
    exact hstep.accounted (List.Subset.trans hrest.sites_subset hsites)
      (fun d hd => hnoted d (hrest.notes_subset hd)) (ih hsites hnoted)

end Accounted

/-- Whether the parenthesis at a place is noted as never closed. -/
def IsMissing (place : Nat) (s : Progress) : Prop :=
  ∃ site ∈ s.sites, ∃ d ∈ s.notes, site.unclosed? = some d ∧ d.position = place

/-- A step keeps track of the parentheses that are never closed; only a call at the end of the text opens
one that it does not put on the stack. -/
theorem Step.isMissing (hstep : Step limit catalog tokens s tokens' s') {place : Nat}
    (h : place ∈ tokens.foldl Token.openBehind s.openings) :
    place ∈ tokens'.foldl Token.openBehind s'.openings ∨ s'.IsMissing place := by
  cases hstep with
  | word hword => rcases hword with ⟨rfl, -⟩ | rfl <;> exact .inl h
  | reference =>
    unfold refer
    split <;> exact .inl h
  | @unclosed name position opening _ _ _ =>
    rcases List.mem_cons.mp h with rfl | h
    · refine .inr ⟨.call position name (some place), ?_, _, List.mem_cons_self, rfl, rfl⟩
      rw [sites_push]
      exact List.mem_append_right _ List.mem_cons_self
    · exact .inl h
  | closing =>
    obtain ⟨_ | ⟨frame, frames⟩, body, notes⟩ := s <;> exact .inl h
  | comma =>
    obtain ⟨_ | ⟨⟨⟨start, name, arguments⟩ | _, opening, outer⟩, frames⟩, body, notes⟩ := s <;>
      exact .inl h
  | _ => exact .inl h

theorem Run.isMissing (hrun : Run limit catalog tokens s s') {place : Nat}
    (h : place ∈ tokens.foldl Token.openBehind s.openings) :
    place ∈ s'.openings ∨ s'.IsMissing place := by
  induction hrun with
  | done => exact .inl h
  | step hstep hrest ih =>
    rcases hstep.isMissing h with h | ⟨site, hsite, d, hd, hunclosed⟩
    · exact ih h
    · exact .inr ⟨site, hrest.sites_subset hsite, d, hrest.notes_subset hd, hunclosed⟩

/-- An open parenthesis belongs to a site, which says what is noted when it is never closed. -/
theorem exists_site_of_mem {frame : Frame} {frames : List Frame} (h : frame ∈ frames) :
    ∃ site ∈ framesSites frames, site.unclosed? = some frame.unclosed := by
  induction frames with
  | nil => cases h
  | cons first frames ih =>
    rcases List.mem_cons.mp h with rfl | h
    · obtain ⟨⟨position, name, arguments⟩ | _, opening, outer⟩ := frame
      · exact ⟨_, List.mem_append_right _ List.mem_cons_self, rfl⟩
      · exact ⟨_, List.mem_append_right _ List.mem_cons_self, rfl⟩
    · obtain ⟨site, hsite, hunclosed⟩ := ih h
      exact ⟨site, List.mem_append_left _ (List.mem_append_left _ hsite), hunclosed⟩

end Progress

/-! ### What is noted of tokens -/

section Notes

variable {limit : Int} {catalog : Catalog} {tokens : List Token} {terms : List Term}
  {notes : List Diagnostic}

/-- What is noted is at the places of tokens, and no two notes at the place of one. -/
theorem count_positions_le (h : readTerms limit catalog tokens = .ok (terms, notes)) (place : Nat) :
    (Diagnostic.positions notes).count place ≤ (Token.positions tokens).count place := by
  obtain ⟨s, hrun, -, rfl⟩ := exists_run_of_readTerms h
  have hopenings : Diagnostic.positions (s.frames.map Frame.unclosed) = s.openings := List.map_map
  have hweight := hrun.weight_le place
  simp only [Progress.weight, Progress.start, Progress.openings, Token.positions,
    Diagnostic.positions, List.map_nil, List.count_nil] at hweight hopenings ⊢
  rw [List.map_append, hopenings, List.count_append, List.map_reverse, List.count_reverse]
  omega

theorem accounted_of_readTerms (h : readTerms limit catalog tokens = .ok (terms, notes))
    {noted : Nat → Prop} (hnoted : ∀ d ∈ notes, noted d.position) :
    AllAccounted catalog (sequenceSites terms) noted [] tokens := by
  obtain ⟨s, hrun, hterms, rfl⟩ := exists_run_of_readTerms h
  rw [hterms]
  refine hrun.accounted (List.Subset.refl _) fun d hd => hnoted d ?_
  exact List.mem_append_left _ (List.mem_reverse.mpr hd)

/-- A parenthesis that is never closed belongs to a site and is noted with what was opened. -/
theorem unclosed_of_readTerms (h : readTerms limit catalog tokens = .ok (terms, notes)) {place : Nat}
    (hplace : place ∈ openBehind tokens) :
    ∃ site ∈ sequenceSites terms, ∃ d ∈ notes, site.unclosed? = some d ∧ d.position = place := by
  obtain ⟨s, hrun, hterms, rfl⟩ := exists_run_of_readTerms h
  rw [hterms]
  rcases hrun.isMissing hplace with hopen | ⟨site, hsite, d, hd, hunclosed⟩
  · obtain ⟨frame, hframe, rfl⟩ := List.mem_map.mp hopen
    obtain ⟨site, hsite, hunclosed⟩ := Progress.exists_site_of_mem hframe
    exact ⟨site, List.mem_append_left _ hsite, _,
      List.mem_append_right _ (List.mem_map_of_mem hframe), hunclosed, rfl⟩
  · exact ⟨site, hsite, d, List.mem_append_left _ (List.mem_reverse.mpr hd), hunclosed⟩

end Notes

theorem filter_position_eq {notes : List Diagnostic} (h : (Diagnostic.positions notes).Nodup)
    {d : Diagnostic} (hd : d ∈ notes) : notes.filter (fun e => e.position = d.position) = [d] := by
  have hsame : ∀ e ∈ notes, decide (e.position = d.position) = decide (e = d) := fun e he =>
    decide_eq_decide.mpr ⟨fun hposition => List.inj_on_of_nodup_map h he hd hposition,
      fun heq => heq ▸ rfl⟩
  rw [List.filter_congr hsame, List.filter_eq, List.count_eq_one_of_mem (h.of_map _) hd]
  rfl

/-! ### What a formula says of its text -/

/-- Whether a node has what a lexeme says. -/
def Lexeme.Makes (catalog : Catalog) (node : Node) : Lexeme → Prop
  | function name => (node.kind = .function ∧ node.function = some name) ∨
      (isOperator name = true ∧ node.kind = .operator ∧ node.operator = some name)
  | operator symbol => node.kind = .operator ∧ node.operator = some symbol
  | reference name => ∃ found, catalog.findByName? name = some found ∧
      node.kind = .reference ∧ node.reference = some found.id
  | value _ number => node.kind = .value ∧ node.value = some number
  | opening | closing | comma => False

theorem Site.Describes.kind_ne_group_iff {node : Node} {site : Site} (h : site.Describes node) :
    node.kind ≠ .group ↔ site.isNamed = true := by
  cases site <;> simp [Site.isNamed, h.1]

theorem Site.IsOf.makes {catalog : Catalog} {t : Token} {node : Node} {site : Site}
    (hsite : site.IsOf catalog t) (hnode : site.Describes node) : t.lexeme.Makes catalog node := by
  obtain ⟨l, place⟩ := t
  cases site with
  | reference position id =>
    obtain ⟨-, name, found, rfl, hfound, rfl⟩ := hsite
    exact ⟨found, hfound, hnode⟩
  | operator position symbol =>
    obtain ⟨-, ⟨rfl, hoperator⟩ | rfl⟩ := hsite
    · exact .inr ⟨hoperator, hnode⟩
    · exact hnode
  | value position number =>
    obtain ⟨-, literal, rfl⟩ := hsite
    exact hnode
  | call position name opening =>
    obtain ⟨-, rfl⟩ := hsite
    exact .inl hnode
  | group => exact hsite.elim
  | argument => exact hsite.elim

/-- An opening parenthesis has one site. -/
theorem Yields.countP_opening {catalog : Catalog} {tokens : List Token} {sites : List Site}
    (h : Yields catalog tokens sites) (htokens : (Token.positions tokens).Nodup) {t : Token}
    (ht : t ∈ tokens) (hopening : t.lexeme = .opening) :
    sites.countP (fun site => site.opening? = some t.position) = 1 := by
  have hmem : t.position ∈ Token.positions (tokens.filter fun t => t.lexeme = .opening) :=
    List.mem_map_of_mem (List.mem_filter.mpr ⟨ht, decide_eq_true hopening⟩)
  have hnodup : (Token.positions (tokens.filter fun t => t.lexeme = .opening)).Nodup :=
    htokens.sublist (List.filter_sublist.map _)
  calc sites.countP (fun site => site.opening? = some t.position)
      = (sites.filterMap Site.opening?).count t.position := by
        rw [List.count_filterMap]
        exact List.countP_congr fun site _ => by simp
    _ = 1 := by rw [h.openings, List.count_eq_one_of_mem hnodup hmem]

/-- What tokens and nodes have in common, when sites are those of both. -/
theorem forall₂_makes {catalog : Catalog} {tokens : List Token} {sites : List Site}
    (hsites : List.Forall₂ (fun t site => Site.IsOf catalog t site) tokens sites)
    {nodes : List Node} (hnodes : List.Forall₂ (fun node site => Site.Describes node site) nodes sites) :
    List.Forall₂ (fun t node => t.lexeme.Makes catalog node) tokens nodes := by
  induction hsites generalizing nodes with
  | nil =>
    cases hnodes
    exact .nil
  | cons hsite _ ih =>
    cases hnodes with
    | cons hnode hrest => exact .cons (hsite.makes hnode) (ih hrest)

namespace Formula

variable {limit : Int} {catalog : Catalog} {text : String} {formula : Formula}

/-- What a formula says of the tokens of its text, where `k` identifiers are issued already. -/
structure Accounts (catalog : Catalog) (text : String) (formula : Formula) (k : Nat) : Prop where
  scan : formula.scan = Scan.ofText text
  /-- No two tokens are at the same place. -/
  tokens : (Token.positions formula.scan.tokens).Pairwise (· < ·)
  /-- The nodes that are no groups are made for the tokens that need one, in their order. -/
  nodes : List.Forall₂ (fun t node => t.lexeme.Makes catalog node)
    (formula.scan.tokens.filter fun t => t.lexeme.contributes catalog)
    ((formula.store k).nodes.filter fun node => node.kind ≠ .group)
  /-- Each node has a site, and sites are in the order of the text. -/
  sites : List.Forall₂ (fun node site => Site.Describes node site) (formula.store k).nodes
    (sequenceSites formula.terms)
  places : (sequenceSites formula.terms).flatMap Site.places = Token.positions
    (formula.scan.tokens.filter fun t => t.lexeme.contributes catalog || t.lexeme = .opening)
  /-- An opening parenthesis belongs to one group or to one call. -/
  openings : ∀ t ∈ formula.scan.tokens, t.lexeme = .opening →
    (sequenceSites formula.terms).countP (fun site => site.opening? = some t.position) = 1
  /-- A token that makes no node is a parenthesis or the comma of a call, or there is one note at its
  place. -/
  others : ∀ before t rest, formula.scan.tokens = before ++ t :: rest →
    Accounted catalog (sequenceSites formula.terms)
      (fun place => ∃ d, formula.notes.filter (fun e => e.position = place) = [d])
      (openBehind before) t
  /-- At a parenthesis that is never closed there is one note, which says what it has opened. -/
  unclosed : ∀ place ∈ openBehind formula.scan.tokens, ∃ site ∈ sequenceSites formula.terms,
    ∃ d, site.unclosed? = some d ∧ formula.notes.filter (fun e => e.position = place) = [d]
  diagnostics : formula.diagnostics.Pairwise fun d e => d.position < e.position

/-- No two diagnostics of a formula are at the same place. -/
theorem nodup_positions (hterms : readTerms limit catalog (Scan.ofText text).tokens =
      .ok (formula.terms, formula.notes)) :
    (Diagnostic.positions ((Scan.ofText text).diagnostics ++ formula.notes)).Nodup := by
  refine List.nodup_iff_count_le_one.mpr fun place => ?_
  have hplace := List.nodup_iff_count_le_one.mp (nodup_places text) place
  have hnotes := count_positions_le hterms place
  rw [List.count_append] at hplace
  rw [Diagnostic.positions, List.map_append, List.count_append]
  exact (Nat.add_le_add_left hnotes _).trans hplace

/-- The diagnostics of a formula are in the order of the text. -/
theorem pairwise_diagnostics
    (h : (Diagnostic.positions (formula.scan.diagnostics ++ formula.notes)).Nodup) :
    formula.diagnostics.Pairwise fun d e => d.position < e.position := by
  have hsorted : formula.diagnostics.Pairwise fun d e =>
      decide (d.position ≤ e.position) = true :=
    sortBy_pairwise (by simp [Nat.le_total]) (by simpa using fun _ _ _ => Nat.le_trans) _
  have hpositions : (Diagnostic.positions formula.diagnostics).Nodup :=
    (formula.diagnostics_perm.map _).nodup_iff.mpr h
  exact (hsorted.and (List.pairwise_map.mp hpositions)).imp fun ⟨hle, hne⟩ =>
    Nat.lt_of_le_of_ne (of_decide_eq_true hle) hne

/-- The nodes that are no groups are made for tokens, one for each that needs one. -/
theorem makes_of_read (h : read limit catalog text = .ok formula) (k : Nat) :
    List.Forall₂ (fun t node => t.lexeme.Makes catalog node)
      (formula.scan.tokens.filter fun t => t.lexeme.contributes catalog)
      ((formula.store k).nodes.filter fun node => node.kind ≠ .group) := by
  obtain ⟨hscan, hterms⟩ := readTerms_of_read h
  rw [← hscan] at hterms
  have hnodes := sequenceSites_nodes none k formula.terms
  refine forall₂_makes (yields_of_readTerms hterms).named
    (List.rel_filter (fun node site hdescribes => ?_) hnodes)
  exact decide_eq_true_iff.trans hdescribes.kind_ne_group_iff

/-- **No token is lost, doubled or moved**, whatever the text is. -/
theorem accounts_of_read (h : read limit catalog text = .ok formula) (k : Nat) :
    formula.Accounts catalog text k := by
  obtain ⟨hscan, hterms⟩ := readTerms_of_read h
  have hpositions := nodup_positions hterms
  have htokens := pairwise_tokens text
  rw [← hscan] at hterms hpositions htokens
  have hyields := yields_of_readTerms hterms
  have hnodes := sequenceSites_nodes none k formula.terms
  have hnotes : (Diagnostic.positions formula.notes).Nodup := by
    rw [Diagnostic.positions, List.map_append] at hpositions
    exact (List.nodup_append.mp hpositions).2.1
  refine ⟨hscan, htokens, makes_of_read h k, hnodes, hyields.places, ?openings, ?others, ?unclosed,
    pairwise_diagnostics hpositions⟩
  case openings =>
    exact fun t ht hopening => hyields.countP_opening (htokens.imp Nat.ne_of_lt) ht hopening
  case others =>
    intro before t rest hsplit
    rw [hsplit] at hterms
    exact (accounted_of_readTerms hterms fun d hd => ⟨d, filter_position_eq hnotes hd⟩).at_token
  case unclosed =>
    intro place hplace
    obtain ⟨site, hsite, d, hd, hunclosed, rfl⟩ := unclosed_of_readTerms hterms hplace
    exact ⟨site, hsite, d, hunclosed, filter_position_eq hnotes hd⟩

theorem pieces_unbalanced : pieces "NOT(\x7bA\x7d,)),(".toList =
    [.lexeme (.function "NOT"), .lexeme .opening, .lexeme (.reference "A"), .lexeme .comma,
      .lexeme .closing, .lexeme .closing, .lexeme .comma, .lexeme .opening] := by
  have hname : '}' ∉ "A".toList := by decide
  have hspaced : Spaced [.lexeme (.function "NOT"), .lexeme .opening, .lexeme (.reference "A"),
      .lexeme .comma, .lexeme .closing, .lexeme .closing, .lexeme .comma, .lexeme .opening] :=
    ⟨rfl, by decide, trivial, by decide, hname, by decide, trivial, by decide, trivial, by decide,
      trivial, by decide, trivial, by decide, trivial, by decide, trivial⟩
  exact pieces_layout hspaced

/-- Of the two closing parentheses and the two commas one each is noted, and a parenthesis at the end is
never closed. -/
theorem accounts_unbalanced : ∃ formula,
    read 1 [⟨"a", "A", none⟩] "NOT(\x7bA\x7d,)),(" = .ok formula ∧
      formula.notes = [⟨.unmatchedClosing, 9⟩, ⟨.strayComma, 10⟩, ⟨.unclosedGroup, 11⟩] ∧
      formula.Accounts [⟨"a", "A", none⟩] "NOT(\x7bA\x7d,)),(" 0 := by
  have hread : read 1 [⟨"a", "A", none⟩] "NOT(\x7bA\x7d,)),(" = .ok ⟨Scan.ofText "NOT(\x7bA\x7d,)),(",
      [.call 0 "NOT" (some ⟨3, some 8⟩) [[.reference 4 "a"], []], .group ⟨11, none⟩ []],
      [⟨.unmatchedClosing, 9⟩, ⟨.strayComma, 10⟩, ⟨.unclosedGroup, 11⟩]⟩ := by
    refine read_of_readTerms ?_
    rw [Scan.ofText, pieces_unbalanced]
    rfl
  exact ⟨_, hread, rfl, accounts_of_read hread 0⟩

end Formula

end Formulary
