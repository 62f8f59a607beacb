/-
# The limit for the nesting is exact

A counter goes up at every opening parenthesis, and down at every closing one unless it is at zero.
Reading fails if and only if an opening parenthesis takes this counter above the limit, and it stops at
the first one that does: at the name of the function if the parenthesis belongs to a call, and else at
the parenthesis itself. What the parenthesis belongs to is seen under a limit that is high enough. A
limit that does not make reading fail has no other effect (`Formula.read_limit`).

Key definitions: `firstAbove`, `StopsAt`.
Key theorems: `Progress.exists_read_of_firstAbove`, `Progress.exists_error_of_firstAbove`,
`Formula.read_limit`.
-/
import Formulary.Proofs.Grammar.Accept
import Formulary.Proofs.Term.Sites

namespace Formulary

open Term

/-- The place of the first parenthesis that opens above the limit, where `depth` are open already. A
closing parenthesis that closes nothing does not count. -/
def firstAbove (limit : Int) : Nat → List Token → Option Nat
  | _, [] => none
  | depth, ⟨.opening, place⟩ :: rest =>
    if limit < depth + 1 then some place else firstAbove limit (depth + 1) rest
  | depth, ⟨.closing, _⟩ :: rest => firstAbove limit (depth - 1) rest
  | depth, _ :: rest => firstAbove limit depth rest

/-- Whether reading stops at the given position because of the parenthesis at a place: at the name
right before it if the parenthesis is that of a call, and at the parenthesis if it opens a group. -/
inductive StopsAt (tokens : List Token) (sites : List Site) (place : Nat) : Nat → Prop
  | call {position name before rest}
      (htokens : tokens = before ++ ⟨.function name, position⟩ :: ⟨.opening, place⟩ :: rest)
      (hsite : .call position name (some place) ∈ sites) : StopsAt tokens sites place position
  | group (hsite : .group place ∈ sites) : StopsAt tokens sites place place

theorem StopsAt.cons {tokens : List Token} {sites : List Site} {place position : Nat}
    (h : StopsAt tokens sites place position) (t : Token) :
    StopsAt (t :: tokens) sites place position := by
  cases h with
  | @call _ name before rest htokens hsite =>
    exact @call _ _ _ _ name (t :: before) rest (congrArg (t :: ·) htokens) hsite
  | group hsite => exact .group hsite

namespace Progress

variable {limit : Int} {catalog : Catalog} {s : Progress} {tokens : List Token} {place : Nat}

theorem descend_of_lt {position : Nat} (h : limit < (s.frames.length : Int) + 1) :
    s.descend limit position = .error ⟨position, s.count + 1⟩ :=
  if_pos h

/-- A parenthesis that opens within the limit. -/
theorem firstAbove_of_le {depth : Nat} (h : (depth : Int) + 1 ≤ limit) (rest : List Token) :
    firstAbove limit depth (⟨.opening, place⟩ :: rest) = firstAbove limit (depth + 1) rest :=
  if_neg (Int.not_lt.mpr h)

theorem eq_of_firstAbove {depth opening : Nat} (h : limit < (depth : Int) + 1) {rest : List Token}
    (hfirst : firstAbove limit depth (⟨.opening, opening⟩ :: rest) = some place) :
    opening = place := by
  rw [firstAbove, if_pos h] at hfirst
  exact Option.some.inj hfirst

theorem le_of_firstAbove {depth opening : Nat} {rest : List Token}
    (hfirst : firstAbove limit depth (⟨.opening, opening⟩ :: rest) = none) :
    (depth : Int) + 1 ≤ limit := by
  by_contra h
  rw [firstAbove, if_pos (Int.not_le.mp h)] at hfirst
  cases hfirst

/-- **Reading succeeds if no parenthesis opens above the limit.** -/
theorem exists_read_of_firstAbove (h : firstAbove limit s.frames.length tokens = none) :
    ∃ s', read limit catalog tokens s = .ok s' := by
  fun_induction read limit catalog tokens s with
  | case1 s => exact ⟨s, rfl⟩
  | case2 name position opening rest s hword s₁ ih =>
    have hle : (s.frames.length : Int) + 1 ≤ limit := le_of_firstAbove h
    have hdescend : s₁.descend limit opening = .ok () := descend_of_le hle
    rw [hdescend]
    exact ih ((firstAbove_of_le hle rest).symm.trans h)
  | case3 name position opening rest s hword ih =>
    have hle : (s.frames.length : Int) + 1 ≤ limit := le_of_firstAbove h
    have hrest : firstAbove limit (s.frames.length + 1) rest = none :=
      (firstAbove_of_le hle rest).symm.trans h
    rw [descend_of_le hle]
    rcases rest with _ | ⟨⟨l, closing⟩, rest⟩
    · exact ⟨_, rfl⟩
    · cases l <;> exact ih hrest
  | case4 name position rest s hrest ih => exact ih (by rw [length_frames_readBare]; exact h)
  | case5 symbol position rest s ih => exact ih h
  | case6 name position rest s ih => exact ih (by rw [length_frames_refer]; exact h)
  | case7 literal number position rest s ih => exact ih h
  | case8 position rest s ih =>
    have hle : (s.frames.length : Int) + 1 ≤ limit := le_of_firstAbove h
    rw [descend_of_le hle]
    exact ih ((firstAbove_of_le hle rest).symm.trans h)
  | case9 position rest s ih => exact ih (by rw [length_frames_leave]; exact h)
  | case10 position rest s ih => exact ih (by rw [length_frames_separate]; exact h)

theorem sites_subset_of_read {s' : Progress} (h : read limit catalog tokens s = .ok s') :
    s.sites ⊆ s'.sites := by
  obtain ⟨added, hadded, -⟩ := (run_of_read h).sites
  rw [hadded]
  exact List.subset_append_left _ _

theorem mem_sites_of_push {term : Term} {site : Site} {s' : Progress} (hsite : site ∈ term.sites)
    (h : read limit catalog tokens (s.push term) = .ok s') : site ∈ s'.sites := by
  refine sites_subset_of_read h ?_
  rw [sites_push]
  exact List.mem_append_right _ hsite

theorem mem_sites_of_enter {opened : Opened} {opening : Nat} {site : Site} {s' : Progress}
    (hsite : site ∈ openedSites opening opened)
    (h : read limit catalog tokens (s.enter opened opening) = .ok s') : site ∈ s'.sites := by
  refine sites_subset_of_read h ?_
  rw [sites_enter]
  exact List.mem_append_right _ hsite

/-- A function name in front of a parenthesis, and not infix, is read as the call of that parenthesis. -/
theorem call_mem_sites {name : String} {position opening : Nat} {rest : List Token} {s' : Progress}
    (hword : ¬(isOperator name && s.followsOperand) = true)
    (h : read limit catalog (⟨.function name, position⟩ :: ⟨.opening, opening⟩ :: rest) s = .ok s') :
    .call position name (some opening) ∈ s'.sites := by
  rw [read.eq_def] at h
  simp only [if_neg hword] at h
  have hrest := (of_descend_bind h).2
  rcases rest with _ | ⟨⟨l, closing⟩, rest⟩
  · obtain rfl := Except.ok.inj hrest
    rw [sites_push]
    exact List.mem_append_right _ List.mem_cons_self
  · cases l with
    | closing => exact mem_sites_of_push List.mem_cons_self hrest
    | _ => exact mem_sites_of_enter List.mem_cons_self hrest

/-- What stops at a parenthesis stops at it with one more token in front. -/
theorem exists_stop_cons {sites : List Site} {result : Except Overflow Progress} (t : Token)
    (h : ∃ e, result = .error e ∧ StopsAt tokens sites place e.position) :
    ∃ e, result = .error e ∧ StopsAt (t :: tokens) sites place e.position := by
  obtain ⟨e, he, hstops⟩ := h
  exact ⟨e, he, hstops.cons t⟩

/-- **Reading stops at the first parenthesis that opens above the limit.** What is read under another
limit shows what the parenthesis belongs to. -/
theorem exists_error_of_firstAbove {other : Int} {s' : Progress}
    (h : firstAbove limit s.frames.length tokens = some place)
    (hother : read other catalog tokens s = .ok s') :
    ∃ e, read limit catalog tokens s = .error e ∧ StopsAt tokens s'.sites place e.position := by
  fun_induction read limit catalog tokens s with
  | case1 s => cases h
  | case2 name position opening rest s hword s₁ ih =>
    rw [read.eq_def] at hother
    simp only [if_pos hword] at hother
    have hrest := (of_descend_bind hother).2
    by_cases hlt : limit < (s.frames.length : Int) + 1
    · obtain rfl := eq_of_firstAbove hlt h
      have hdescend : s₁.descend limit opening = .error ⟨opening, s₁.count + 1⟩ :=
        descend_of_lt hlt
      exact ⟨⟨opening, s₁.count + 1⟩, by rw [hdescend]; rfl,
        .group (mem_sites_of_enter List.mem_cons_self hrest)⟩
    · have hle := Int.not_lt.mp hlt
      have hdescend : s₁.descend limit opening = .ok () := descend_of_le hle
      rw [hdescend]
      exact exists_stop_cons _
        (exists_stop_cons _ (ih ((firstAbove_of_le hle rest).symm.trans h) hrest))
  | case3 name position opening rest s hword ih =>
    by_cases hlt : limit < (s.frames.length : Int) + 1
    · obtain rfl := eq_of_firstAbove hlt h
      exact ⟨_, by rw [descend_of_lt hlt]; rfl,
        .call (List.nil_append _).symm (call_mem_sites hword hother)⟩
    · have hle := Int.not_lt.mp hlt
      have hfirst : firstAbove limit (s.frames.length + 1) rest = some place :=
        (firstAbove_of_le hle rest).symm.trans h
      rw [read.eq_def] at hother
      simp only [if_neg hword] at hother
      have hrest := (of_descend_bind hother).2
      rw [descend_of_le hle]
      refine exists_stop_cons _ (exists_stop_cons _ ?_)
      rcases rest with _ | ⟨⟨l, closing⟩, rest⟩
      · cases hfirst
      · cases l with
        | closing => exact exists_stop_cons _ (ih hfirst hrest)
        | _ => exact ih hfirst hrest
  | case4 name position rest s hrest ih =>
    rw [read_function (startsOpening_eq_false hrest)] at hother
    exact exists_stop_cons _ (ih (by rw [length_frames_readBare]; exact h) hother)
  | case5 symbol position rest s ih =>
    rw [read_symbol] at hother
    exact exists_stop_cons _ (ih h hother)
  | case6 name position rest s ih =>
    rw [read] at hother
    exact exists_stop_cons _ (ih (by rw [length_frames_refer]; exact h) hother)
  | case7 literal number position rest s ih =>
    rw [read_value] at hother
    exact exists_stop_cons _ (ih h hother)
  | case8 position rest s ih =>
    rw [read] at hother
    have hrest := (of_descend_bind hother).2
    by_cases hlt : limit < (s.frames.length : Int) + 1
    · obtain rfl := eq_of_firstAbove hlt h
      exact ⟨_, by rw [descend_of_lt hlt]; rfl,
        .group (mem_sites_of_enter List.mem_cons_self hrest)⟩
    · have hle := Int.not_lt.mp hlt
      rw [descend_of_le hle]
      exact exists_stop_cons _ (ih ((firstAbove_of_le hle rest).symm.trans h) hrest)
  | case9 position rest s ih =>
    rw [read_closing] at hother
    exact exists_stop_cons _ (ih (by rw [length_frames_leave]; exact h) hother)
  | case10 position rest s ih =>
    rw [read_comma] at hother
    exact exists_stop_cons _ (ih (by rw [length_frames_separate]; exact h) hother)

end Progress

namespace Formula

variable {limit : Int} {catalog : Catalog} {text : String}

theorem read_eq_error_iff {e : Overflow} : read limit catalog text = .error e ↔
    Progress.read limit catalog (Scan.ofText text).tokens .start = .error e := by
  rw [read_eq, readTerms]
  cases Progress.read limit catalog (Scan.ofText text).tokens .start with
  | error found =>
    exact ⟨fun h => congrArg _ (Except.error.inj h), fun h => congrArg _ (Except.error.inj h)⟩
  | ok s =>
    refine ⟨fun h => ?_, fun h => ?_⟩
    · cases h
    · cases h

/-- What is read does not depend on the limit. -/
theorem eq_of_read {other : Int} {formula again : Formula}
    (h : read limit catalog text = .ok formula) (hagain : read other catalog text = .ok again) :
    again = formula := by
  have hsame := read_mono h (Int.le_max_left limit other)
  rw [read_mono hagain (Int.le_max_right limit other)] at hsame
  exact Except.ok.inj hsame

/-- A parenthesis above the limit makes reading fail; under a limit that is high enough the text is read,
and what is read shows where reading stops. -/
theorem exists_error {place : Nat}
    (h : firstAbove limit 0 (Scan.ofText text).tokens = some place) :
    ∃ e, read limit catalog text = .error e ∧
      ∃ enough formula, read enough catalog text = .ok formula ∧
        StopsAt (Scan.ofText text).tokens (sequenceSites formula.terms) place e.position := by
  obtain ⟨s, hs⟩ := @Progress.exists_read _ catalog (Scan.ofText text).tokens .start (Int.le_refl _)
  obtain ⟨e, he, hstops⟩ := Progress.exists_error_of_firstAbove h hs
  refine ⟨e, read_eq_error_iff.mpr he, _, _, read_of_progress hs, ?_⟩
  show StopsAt _ (sequenceSites (Progress.closeAll s.frames s.body s.notes).1) place e.position
  rw [Progress.sites_closeAll]
  exact hstops

/-- **The limit for the nesting is the only reason for failure, and it is exact.** Reading fails if and
only if a parenthesis opens above the limit, and stops at the first one that does; limits that do not
make it fail give one and the same formula. -/
theorem read_limit (limit : Int) (catalog : Catalog) (text : String) :
    ((∃ e, read limit catalog text = .error e) ↔
      ∃ place, firstAbove limit 0 (Scan.ofText text).tokens = some place) ∧
    (∀ e place, read limit catalog text = .error e →
      firstAbove limit 0 (Scan.ofText text).tokens = some place →
      ∃ enough formula, read enough catalog text = .ok formula ∧
        StopsAt (Scan.ofText text).tokens (sequenceSites formula.terms) place e.position) ∧
    ∀ other formula again, read limit catalog text = .ok formula →
      read other catalog text = .ok again → again = formula := by
  refine ⟨⟨?fails, ?exceeds⟩, ?stops, fun _ _ _ => eq_of_read⟩
  case fails =>
    rintro ⟨e, he⟩
    rw [← Option.isSome_iff_exists, ← Option.ne_none_iff_isSome]
    intro hfirst
    obtain ⟨s, hs⟩ := @Progress.exists_read_of_firstAbove limit catalog .start _ hfirst
    rw [read_of_progress hs] at he
    cases he
  case exceeds =>
    rintro ⟨place, hfirst⟩
    obtain ⟨e, he, -⟩ := exists_error hfirst
    exact ⟨e, he⟩
  case stops =>
    intro e place he hfirst
    obtain ⟨found, hfound, henough⟩ := exists_error hfirst
    obtain rfl := Except.error.inj (hfound.symm.trans he)
    exact henough

theorem pieces_nested : pieces "(NOT(".toList =
    [.lexeme .opening, .lexeme (.function "NOT"), .lexeme .opening] := by
  have hspaced : Spaced [.lexeme .opening, .lexeme (.function "NOT"), .lexeme .opening] :=
    ⟨trivial, by decide, rfl, by decide, trivial, by decide, trivial⟩
  exact pieces_layout hspaced

/-- The parenthesis of a call is one too many, and reading stops at the name of the function. -/
theorem read_limit_nested : read 1 [] "(NOT(" = .error ⟨1, 2⟩ ∧
    ∃ enough formula, read enough [] "(NOT(" = .ok formula ∧
      StopsAt (Scan.ofText "(NOT(").tokens (sequenceSites formula.terms) 4 1 := by
  have htokens : (Scan.ofText "(NOT(").tokens =
      [⟨.opening, 0⟩, ⟨.function "NOT", 1⟩, ⟨.opening, 4⟩] := by
    rw [Scan.ofText, pieces_nested]
    rfl
  have herror : read 1 [] "(NOT(" = .error ⟨1, 2⟩ := by
    rw [read_eq_error_iff, htokens]
    rfl
  have hfirst : firstAbove 1 0 (Scan.ofText "(NOT(").tokens = some 4 := by
    rw [htokens]
    rfl
  exact ⟨herror, (read_limit 1 [] "(NOT(").2.1 _ _ herror hfirst⟩

end Formula
end Formulary
