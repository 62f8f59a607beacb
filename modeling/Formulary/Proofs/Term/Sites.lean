/-
# Where nodes were read

Terms keep the places that they were read from. Listed in reading order, these are the sites of the nodes
of a store, one for each (`sites_nodes`). A step of the reader adds the sites of the tokens that it takes,
behind those of all tokens before them, so that the nodes that are no groups are read from the tokens that
stand for one, and the parentheses of calls and groups are the opening ones, both in the order of the text
(`yields_of_readTerms`).

Key definitions: `Site`, `Term.sites`, `Lexeme.contributes`, `Yields`.
Key theorems: `Term.sites_nodes`, `Progress.Step.sites`, `yields_of_readTerms`.
-/
import Mathlib.Data.List.Forall2
import Formulary.Formula
import Formulary.Proofs.Term.Run
import Formulary.Proofs.Token.Places

namespace Formulary

/-- What a node is, and where in the text it was read. -/
inductive Site
  | reference (position : Nat) (id : String)
  | operator (position : Nat) (symbol : String)
  | value (position : Nat) (number : Number)
  /-- A function, with the place of the opening parenthesis if it has one. -/
  | call (position : Nat) (name : String) (opening : Option Nat)
  /-- A plain group, with the place of its opening parenthesis. -/
  | group (opening : Nat)
  /-- An argument of a call, which has no token of its own. -/
  | argument
deriving DecidableEq

namespace Site

/-- Whether the node of a site is read from a token of its own; groups have parentheses only. -/
def isNamed : Site → Bool
  | group _ | argument => false
  | _ => true

/-- The place of the opening parenthesis that belongs to a site. -/
def opening? : Site → Option Nat
  | call _ _ opening => opening
  | group opening => some opening
  | _ => none

/-- The places of the tokens that a site is read from, without the closing parenthesis. -/
def places : Site → List Nat
  | reference position _ | operator position _ | value position _ => [position]
  | call position _ opening => position :: opening.toList
  | group opening => [opening]
  | argument => []

/-- Whether a node is what the site says. -/
def Describes (node : Node) : Site → Prop
  | reference _ id => node.kind = .reference ∧ node.reference = some id
  | operator _ symbol => node.kind = .operator ∧ node.operator = some symbol
  | value _ number => node.kind = .value ∧ node.value = some number
  | call _ name _ => node.kind = .function ∧ node.function = some name
  | group _ => node.kind = .group ∧ node.slot = none
  | argument => node.kind = .group ∧ node.slot.isSome = true

/-- Whether a site is that of a token: the token stands at its place and has what its node holds. -/
def IsOf (catalog : Catalog) (t : Token) : Site → Prop
  | reference position id => t.position = position ∧
      ∃ name found, t.lexeme = .reference name ∧ catalog.findByName? name = some found ∧ found.id = id
  | operator position symbol => t.position = position ∧ Progress.IsWord t.lexeme symbol
  | value position number => t.position = position ∧ ∃ literal, t.lexeme = .value literal number
  | call position name _ => t.position = position ∧ t.lexeme = .function name
  | group _ | argument => False

end Site

/-! ### The sites of terms -/

namespace Term

mutual

/-- The sites of a term in reading order. -/
def sites : Term → List Site
  | reference position id => [.reference position id]
  | operator position symbol => [.operator position symbol]
  | value position number => [.value position number]
  | call position name parens arguments =>
    .call position name (parens.map Parens.opening) :: argumentSites arguments
  | group parens body => .group parens.opening :: sequenceSites body

/-- The sites of a sequence. -/
def sequenceSites : List Term → List Site
  | [] => []
  | term :: rest => term.sites ++ sequenceSites rest

/-- The sites of the arguments of a call. -/
def argumentSites : List (List Term) → List Site
  | [] => []
  | argument :: rest => .argument :: (sequenceSites argument ++ argumentSites rest)

end

theorem sequenceSites_append (terms rest : List Term) :
    sequenceSites (terms ++ rest) = sequenceSites terms ++ sequenceSites rest := by
  induction terms with
  | nil => rfl
  | cons term terms ih => rw [List.cons_append, sequenceSites, sequenceSites, ih, List.append_assoc]

theorem argumentSites_append (arguments rest : List (List Term)) :
    argumentSites (arguments ++ rest) = argumentSites arguments ++ argumentSites rest := by
  induction arguments with
  | nil => rfl
  | cons argument arguments ih =>
    rw [List.cons_append, argumentSites, argumentSites, ih, List.cons_append, List.append_assoc]

theorem sequenceSites_concat (terms : List Term) (term : Term) :
    sequenceSites (term :: terms).reverse = sequenceSites terms.reverse ++ term.sites := by
  rw [List.reverse_cons, sequenceSites_append]
  exact congrArg _ (List.append_nil _)

mutual

/-- **The nodes of a term are those of its sites**, one for each. -/
theorem sites_nodes : ∀ (parent : Option String) (k : Nat) (t : Term),
    List.Forall₂ (fun node site => Site.Describes node site) (nodes parent k t) t.sites
  | _, _, reference _ _ => .cons ⟨rfl, rfl⟩ .nil
  | _, _, operator _ _ => .cons ⟨rfl, rfl⟩ .nil
  | _, _, value _ _ => .cons ⟨rfl, rfl⟩ .nil
  | _, _, call _ _ _ arguments => .cons ⟨rfl, rfl⟩ (argumentSites_nodes _ _ _ arguments)
  | _, _, group _ body => .cons ⟨rfl, rfl⟩ (sequenceSites_nodes _ _ body)

theorem sequenceSites_nodes : ∀ (parent : Option String) (k : Nat) (terms : List Term),
    List.Forall₂ (fun node site => Site.Describes node site) (sequenceNodes parent k terms)
      (sequenceSites terms)
  | _, _, [] => .nil
  | parent, k, term :: rest =>
    List.rel_append (sites_nodes parent k term) (sequenceSites_nodes _ _ rest)

theorem argumentSites_nodes : ∀ (owner : String) (slot k : Nat) (arguments : List (List Term)),
    List.Forall₂ (fun node site => Site.Describes node site) (argumentNodes owner slot k arguments)
      (argumentSites arguments)
  | _, _, _, [] => .nil
  | _, _, _, argument :: rest =>
    .cons ⟨rfl, rfl⟩
      (List.rel_append (sequenceSites_nodes _ _ argument) (argumentSites_nodes _ _ _ rest))

end

end Term

open Term

/-! ### The sites of tokens -/

/-- Whether a node is made for a lexeme. -/
def Lexeme.contributes (catalog : Catalog) : Lexeme → Bool
  | function _ | operator _ | value _ _ => true
  | reference name => (catalog.findByName? name).isSome
  | opening | closing | comma => false

/-- Whether sites are those of tokens: each token that contributes has one, and so has each opening
parenthesis, in the order of the tokens. -/
structure Yields (catalog : Catalog) (tokens : List Token) (sites : List Site) : Prop where
  named : List.Forall₂ (fun t site => Site.IsOf catalog t site)
    (tokens.filter fun t => t.lexeme.contributes catalog) (sites.filter Site.isNamed)
  openings : sites.filterMap Site.opening? =
    Token.positions (tokens.filter fun t => t.lexeme = .opening)
  /-- The two orders are one: a call is read from its name and the parenthesis right behind it. -/
  places : sites.flatMap Site.places =
    Token.positions (tokens.filter fun t => t.lexeme.contributes catalog || t.lexeme = .opening)

variable {limit : Int} {catalog : Catalog}

theorem yields_nil : Yields catalog [] [] :=
  ⟨.nil, rfl, rfl⟩

theorem Yields.append {tokens more : List Token} {sites others : List Site}
    (h : Yields catalog tokens sites) (hmore : Yields catalog more others) :
    Yields catalog (tokens ++ more) (sites ++ others) := by
  refine ⟨?_, ?_, ?_⟩
  · rw [List.filter_append, List.filter_append]
    exact List.rel_append h.named hmore.named
  · rw [List.filterMap_append, List.filter_append, h.openings, hmore.openings, Token.positions,
      Token.positions, Token.positions, List.map_append]
  · rw [List.flatMap_append, List.filter_append, h.places, hmore.places, Token.positions,
      Token.positions, Token.positions, List.map_append]

namespace Progress

/-- The sites of what a parenthesis belongs to, up to its last comma. -/
def openedSites (opening : Nat) : Opened → List Site
  | .call position name arguments =>
    .call position name (some opening) :: (argumentSites arguments.reverse ++ [.argument])
  | .group => [.group opening]

/-- The sites of open parentheses and of what stands before each of them. -/
def framesSites : List Frame → List Site
  | [] => []
  | frame :: rest =>
    framesSites rest ++ sequenceSites frame.outer.reverse ++ openedSites frame.opening frame.opened

/-- The sites of what is read so far. -/
def sites (s : Progress) : List Site :=
  framesSites s.frames ++ sequenceSites s.body.reverse

variable {s s' : Progress} {tokens tokens' : List Token}

theorem sites_push (term : Term) (s : Progress) : (s.push term).sites = s.sites ++ term.sites := by
  simp only [sites, push, sequenceSites_concat, List.append_assoc]

theorem sites_enter (opened : Opened) (opening : Nat) (s : Progress) :
    (s.enter opened opening).sites = s.sites ++ openedSites opening opened := by
  simp [sites, enter, framesSites, sequenceSites]

/-- The sites of a term whose parenthesis is closed. -/
theorem sites_close (frame : Frame) (closing : Option Nat) (body : List Term) :
    (frame.close closing body).sites =
      openedSites frame.opening frame.opened ++ sequenceSites body.reverse := by
  obtain ⟨⟨position, name, arguments⟩ | _, opening, outer⟩ := frame
  · simp only [Frame.close, Term.sites, openedSites, List.reverse_cons, argumentSites_append]
    simp [argumentSites]
  · rfl

theorem sites_leave (position : Nat) (s : Progress) : (s.leave position).sites = s.sites := by
  obtain ⟨_ | ⟨frame, frames⟩, body, notes⟩ := s
  · rfl
  · simp only [sites, leave, framesSites, sequenceSites_concat, sites_close, List.append_assoc]

/-- A comma that ends an argument starts the next one. -/
theorem sites_separate (position : Nat) (s : Progress) :
    (s.separate position).sites = s.sites ∨ (s.separate position).sites = s.sites ++ [.argument] := by
  obtain ⟨_ | ⟨⟨⟨start, name, arguments⟩ | _, opening, outer⟩, frames⟩, body, notes⟩ := s
  · exact .inl rfl
  · refine .inr ?_
    simp [sites, separate, framesSites, openedSites, argumentSites_append, argumentSites,
      sequenceSites]
  · exact .inl rfl

/-- **A step adds the sites of the tokens that it takes.** -/
theorem Step.sites (hstep : Step limit catalog tokens s tokens' s') :
    ∃ used added, tokens = used ++ tokens' ∧ s'.sites = s.sites ++ added ∧
      Yields catalog used added := by
  cases hstep with
  | @word l word position _ _ hword _ =>
    refine ⟨[_], _, rfl, sites_push _ _, ?_⟩
    rcases hword with ⟨rfl, hoperator⟩ | rfl
    · exact ⟨.cons ⟨rfl, .inl ⟨rfl, hoperator⟩⟩ .nil, rfl, rfl⟩
    · exact ⟨.cons ⟨rfl, .inr rfl⟩ .nil, rfl, rfl⟩
  | @reference name position _ _ =>
    unfold refer
    cases hfound : catalog.findByName? name with
    | none =>
      refine ⟨[_], [], rfl, (List.append_nil _).symm, ?_, rfl, ?_⟩ <;>
        simp [Lexeme.contributes, hfound, Token.positions]
    | some found =>
      refine ⟨[_], _, rfl, sites_push _ _, ?_, rfl, ?_⟩
      · have hkept : [(⟨.reference name, position⟩ : Token)].filter
            (fun t => t.lexeme.contributes catalog) = [⟨.reference name, position⟩] := by
          simp [Lexeme.contributes, hfound]
        rw [hkept]
        exact .cons ⟨rfl, name, found, rfl, hfound, rfl⟩ .nil
      · simp [Lexeme.contributes, hfound, Token.positions, Term.sites, Site.places]
  | @value literal number position _ _ =>
    exact ⟨[_], _, rfl, sites_push _ _, .cons ⟨rfl, literal, rfl⟩ .nil, rfl, rfl⟩
  | @missing name position _ _ _ =>
    exact ⟨[_], _, rfl, sites_push _ _, .cons ⟨rfl, rfl⟩ .nil, rfl, rfl⟩
  | @bareCall name position opening closing _ _ _ _ =>
    exact ⟨[_, _, _], _, rfl, sites_push _ _, .cons ⟨rfl, rfl⟩ .nil, rfl, rfl⟩
  | @unclosed name position opening _ _ _ =>
    exact ⟨[_, _], _, rfl, sites_push _ _, .cons ⟨rfl, rfl⟩ .nil, rfl, rfl⟩
  | @call name position opening _ _ _ _ _ =>
    exact ⟨[_, _], _, rfl, sites_enter _ _ _, .cons ⟨rfl, rfl⟩ .nil, rfl, rfl⟩
  | @opening position _ _ _ =>
    exact ⟨[_], _, rfl, sites_enter _ _ _, .nil, rfl, rfl⟩
  | @closing position _ _ =>
    refine ⟨[_], [], rfl, ?_, .nil, rfl, rfl⟩
    rw [sites_leave, List.append_nil]
  | @comma position _ _ =>
    rcases sites_separate position s with h | h
    · exact ⟨[_], [], rfl, h.trans (List.append_nil _).symm, .nil, rfl, rfl⟩
    · exact ⟨[_], [.argument], rfl, h, .nil, rfl, rfl⟩

/-- A run adds the sites of its tokens. -/
theorem Run.sites (hrun : Run limit catalog tokens s s') :
    ∃ added, s'.sites = s.sites ++ added ∧ Yields catalog tokens added := by
  induction hrun with
  | done => exact ⟨[], (List.append_nil _).symm, yields_nil⟩
  | step hstep _ ih =>
    obtain ⟨used, first, rfl, hfirst, hused⟩ := hstep.sites
    obtain ⟨added, hadded, hrest⟩ := ih
    exact ⟨first ++ added, by rw [hadded, hfirst, List.append_assoc], hused.append hrest⟩

/-- Closing what is open at the end of the text adds nothing. -/
theorem sites_closeAll (frames : List Frame) (body : List Term) (notes : List Diagnostic) :
    sequenceSites (closeAll frames body notes).1 = framesSites frames ++ sequenceSites body.reverse := by
  induction frames generalizing body notes with
  | nil => rfl
  | cons frame frames ih =>
    rw [closeAll, ih, framesSites, sequenceSites_concat, sites_close]
    simp only [List.append_assoc]

end Progress

/-- **Tokens are read by a run**: its state at the end has the sites of the terms, and what is noted is
what the run notes and the parentheses that it leaves open. -/
theorem exists_run_of_readTerms {tokens : List Token} {terms : List Term}
    {notes : List Diagnostic} (h : readTerms limit catalog tokens = .ok (terms, notes)) :
    ∃ s, Progress.Run limit catalog tokens .start s ∧ sequenceSites terms = s.sites ∧
      notes = s.notes.reverse ++ s.frames.map Frame.unclosed := by
  obtain ⟨s, hread, hclose⟩ := exists_read_of_readTerms h
  have hsites := Progress.sites_closeAll s.frames s.body s.notes
  have hnotes := Progress.notes_closeAll s.frames s.body s.notes
  rw [hclose] at hsites hnotes
  exact ⟨s, Progress.run_of_read hread, hsites, hnotes⟩

/-- **The sites of the terms that tokens are read into are those of the tokens.** -/
theorem yields_of_readTerms {tokens : List Token} {terms : List Term} {notes : List Diagnostic}
    (h : readTerms limit catalog tokens = .ok (terms, notes)) :
    Yields catalog tokens (sequenceSites terms) := by
  obtain ⟨s, hrun, hterms, -⟩ := exists_run_of_readTerms h
  obtain ⟨added, hsites, hyields⟩ := hrun.sites
  rw [hterms, hsites]
  exact hyields

end Formulary
