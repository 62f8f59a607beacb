/-
# The calls of an outline

The calls of an outline in reading order, each with its arguments, are those of the functions of a regular
forest (`Tree.sequenceCalls_outlines`). If no operator comes back as a call, they come back in the same
order under the same names, and with as many arguments, except that a single empty one is lost
(`Outline.map_length_sequenceCalls_reread`).

Key definition: `Outline.calls`.
Key theorems: `Outline.map_length_sequenceCalls_reread`, `Tree.sequenceCalls_outlines`.
-/
import Formulary.Proofs.Outline.Reread
import Formulary.Proofs.Tree.Forest

namespace Formulary
namespace Outline

mutual

/-- The calls in a part in reading order, with their arguments. -/
def calls : Outline → List (String × List (List Outline))
  | reference _ | operator _ | value _ => []
  | call name arguments => (name, arguments) :: argumentCalls arguments
  | group body => sequenceCalls body

/-- The calls in a sequence. -/
def sequenceCalls : List Outline → List (String × List (List Outline))
  | [] => []
  | o :: rest => o.calls ++ sequenceCalls rest

/-- The calls in arguments. -/
def argumentCalls : List (List Outline) → List (String × List (List Outline))
  | [] => []
  | a :: rest => sequenceCalls a ++ argumentCalls rest

end

theorem argumentCalls_sole (as : List (List Outline)) : argumentCalls (sole as) = argumentCalls as := by
  unfold sole
  split <;> rfl

mutual

theorem calls_settled : ∀ o : Outline,
    o.settled.calls = o.calls.map (Prod.map id argumentSettled)
  | reference _ => rfl
  | operator _ => rfl
  | value _ => rfl
  | call name arguments => by
    rw [settled, calls, calls, argumentCalls_settled arguments]
    rfl
  | group body => by rw [settled, calls, calls, sequenceCalls_settled body]

theorem sequenceCalls_settled : ∀ os : List Outline,
    sequenceCalls (sequenceSettled os) = (sequenceCalls os).map (Prod.map id argumentSettled)
  | [] => rfl
  | o :: rest => by
    rw [sequenceSettled, sequenceCalls, sequenceCalls, calls_settled o, sequenceCalls_settled rest,
      List.map_append]

theorem argumentCalls_settled : ∀ as : List (List Outline),
    argumentCalls (argumentSettled as) = (argumentCalls as).map (Prod.map id argumentSettled)
  | [] => rfl
  | a :: rest => by
    rw [argumentSettled, argumentCalls, argumentCalls, sequenceCalls_settled a,
      argumentCalls_settled rest, List.map_append]

end

/-- The arguments that come back of those of a call. -/
def soleReread (as : List (List Outline)) : List (List Outline) :=
  sole (argumentReread as)

mutual

theorem calls_reread : ∀ {o : Outline}, (∀ q ∈ o.inner, Role.misreads false (q.map role) = 0) →
    o.reread.calls = o.calls.map (Prod.map id soleReread)
  | reference _, _ => rfl
  | operator _, _ => rfl
  | value _, _ => rfl
  | call name arguments, h => by
    rw [reread, calls, calls, argumentCalls_sole, argumentCalls_reread h]
    rfl
  | group body, h => by
    rw [reread, calls, calls, sequenceReread_eq_map (h body List.mem_cons_self),
      sequenceCalls_map_reread fun q hq => h q (List.mem_cons_of_mem _ hq)]

/-- The calls of parts that come back one by one. -/
theorem sequenceCalls_map_reread : ∀ {os : List Outline},
    (∀ q ∈ sequenceInner os, Role.misreads false (q.map role) = 0) →
    sequenceCalls (os.map reread) = (sequenceCalls os).map (Prod.map id soleReread)
  | [], _ => rfl
  | o :: rest, h => by
    have ho := calls_reread fun q hq => h q (List.mem_append_left _ hq)
    have hrest := sequenceCalls_map_reread fun q hq => h q (List.mem_append_right _ hq)
    rw [List.map_cons, sequenceCalls, sequenceCalls, ho, hrest, List.map_append]

theorem argumentCalls_reread : ∀ {as : List (List Outline)},
    (∀ q ∈ argumentInner as, Role.misreads false (q.map role) = 0) →
    argumentCalls (argumentReread as) = (argumentCalls as).map (Prod.map id soleReread)
  | [], _ => rfl
  | a :: rest, h => by
    have ha := sequenceCalls_map_reread
      fun q hq => h q (List.mem_cons_of_mem _ (List.mem_append_left _ hq))
    have hrest := argumentCalls_reread
      fun q hq => h q (List.mem_cons_of_mem _ (List.mem_append_right _ hq))
    rw [argumentReread, argumentCalls, argumentCalls, sequenceReread_eq_map (h a List.mem_cons_self),
      ha, hrest, List.map_append]

end

theorem sole_cons_cons (a b : List Outline) (rest : List (List Outline)) :
    sole (a :: b :: rest) = a :: b :: rest := by
  unfold sole
  split
  · next heq => cases heq
  · rfl

theorem length_argumentReread : ∀ as : List (List Outline), (argumentReread as).length = as.length
  | [] => rfl
  | a :: rest => by rw [argumentReread, List.length_cons, length_argumentReread rest, List.length_cons]

theorem length_argumentSettled : ∀ as : List (List Outline),
    (argumentSettled as).length = as.length
  | [] => rfl
  | a :: rest => by
    rw [argumentSettled, List.length_cons, length_argumentSettled rest, List.length_cons]

/-- A single empty argument is lost, and no other. -/
theorem length_soleReread (as : List (List Outline)) : (soleReread as).length = (sole as).length := by
  rcases as with _ | ⟨a, _ | ⟨b, rest⟩⟩
  · rfl
  · rcases a with _ | ⟨o, os⟩
    · rfl
    · have hne : sequenceReread false (o :: os) ≠ [] := sequenceReread_ne_nil (List.cons_ne_nil o os)
      obtain ⟨u, us, hback⟩ := List.exists_cons_of_ne_nil hne
      rw [soleReread, argumentReread, hback]
      rfl
  · rw [soleReread, argumentReread, argumentReread, sole_cons_cons, sole_cons_cons]
    exact congrArg (· + 2) (length_argumentReread rest)

theorem length_sole_settled (as : List (List Outline)) :
    (sole (argumentSettled as)).length = (sole as).length := by
  rcases as with _ | ⟨a, _ | ⟨b, rest⟩⟩
  · rfl
  · rcases a with _ | ⟨o, os⟩ <;> rfl
  · rw [argumentSettled, argumentSettled, sole_cons_cons, sole_cons_cons]
    exact congrArg (· + 2) (length_argumentSettled rest)

/-- **The calls that come back are those that were written**, with as many arguments, except that a single
empty one is lost. -/
theorem map_length_sequenceCalls_reread {α : Type} (f : String → α) {os : List Outline}
    (h : ∀ q ∈ sequences os, Role.misreads false (q.map role) = 0) :
    (sequenceCalls (sequenceReread false (sequenceSettled os))).map (Prod.map f List.length) =
      (sequenceCalls os).map (Prod.map f fun as => (sole as).length) := by
  have hsettled : ∀ q ∈ sequences (sequenceSettled os), Role.misreads false (q.map role) = 0 := by
    rw [sequences_settled, List.forall_mem_map]
    intro q hq
    rw [map_role_settled]
    exact h q hq
  rw [sequenceReread_eq_map (hsettled _ List.mem_cons_self),
    sequenceCalls_map_reread fun q hq => hsettled q (List.mem_cons_of_mem _ hq),
    sequenceCalls_settled, List.map_map, List.map_map]
  refine List.map_congr_left fun c _ => ?_
  obtain ⟨name, as⟩ := c
  have hlength := (length_soleReread (argumentSettled as)).trans (length_sole_settled as)
  exact congrArg (f name, ·) hlength

/-! ### What holds of every part -/

mutual

theorem forall_inner_reread {P : Outline → Prop} (hP : ∀ o, P o → P o.reread) : ∀ {o : Outline},
    (∀ q ∈ o.inner, Role.misreads false (q.map role) = 0) → (∀ q ∈ o.inner, ∀ u ∈ q, P u) →
    ∀ q ∈ o.reread.inner, ∀ u ∈ q, P u
  | reference _, _, _, _, hq => by cases hq
  | operator _, _, _, _, hq => by cases hq
  | value _, _, _, _, hq => by cases hq
  | call name arguments, hmisreads, h, q, hq => by
    have harguments := forall_argumentInner_reread hP hmisreads h
    have hq : q ∈ argumentInner (sole (argumentReread arguments)) := hq
    unfold sole at hq
    split at hq
    · cases hq
    · exact harguments q hq
  | group body, hmisreads, h, q, hq => by
    rw [reread, inner, sequenceReread_eq_map (hmisreads body List.mem_cons_self)] at hq
    rcases List.mem_cons.mp hq with rfl | hq
    · rw [List.forall_mem_map]
      exact fun u hu => hP u (h body List.mem_cons_self u hu)
    · exact forall_sequenceInner_reread hP (fun q hq => hmisreads q (List.mem_cons_of_mem _ hq))
        (fun q hq => h q (List.mem_cons_of_mem _ hq)) q hq

theorem forall_sequenceInner_reread {P : Outline → Prop} (hP : ∀ o, P o → P o.reread) :
    ∀ {os : List Outline}, (∀ q ∈ sequenceInner os, Role.misreads false (q.map role) = 0) →
    (∀ q ∈ sequenceInner os, ∀ u ∈ q, P u) → ∀ q ∈ sequenceInner (os.map reread), ∀ u ∈ q, P u
  | [], _, _, _, hq => by cases hq
  | o :: rest, hmisreads, h, q, hq => by
    rcases List.mem_append.mp hq with hq | hq
    · exact forall_inner_reread hP (fun q hq => hmisreads q (List.mem_append_left _ hq))
        (fun q hq => h q (List.mem_append_left _ hq)) q hq
    · exact forall_sequenceInner_reread hP (fun q hq => hmisreads q (List.mem_append_right _ hq))
        (fun q hq => h q (List.mem_append_right _ hq)) q hq

theorem forall_argumentInner_reread {P : Outline → Prop} (hP : ∀ o, P o → P o.reread) :
    ∀ {as : List (List Outline)}, (∀ q ∈ argumentInner as, Role.misreads false (q.map role) = 0) →
    (∀ q ∈ argumentInner as, ∀ u ∈ q, P u) → ∀ q ∈ argumentInner (argumentReread as), ∀ u ∈ q, P u
  | [], _, _, _, hq => by cases hq
  | a :: rest, hmisreads, h, q, hq => by
    rw [argumentReread, argumentInner, sequenceReread_eq_map (hmisreads a List.mem_cons_self),
      List.mem_append, List.mem_cons] at hq
    rcases hq with (rfl | hq) | hq
    · rw [List.forall_mem_map]
      exact fun u hu => hP u (h a List.mem_cons_self u hu)
    · exact forall_sequenceInner_reread hP
        (fun q hq => hmisreads q (List.mem_cons_of_mem _ (List.mem_append_left _ hq)))
        (fun q hq => h q (List.mem_cons_of_mem _ (List.mem_append_left _ hq))) q hq
    · exact forall_argumentInner_reread hP
        (fun q hq => hmisreads q (List.mem_cons_of_mem _ (List.mem_append_right _ hq)))
        (fun q hq => h q (List.mem_cons_of_mem _ (List.mem_append_right _ hq))) q hq

end

/-- What holds of all parts of an outline, and of what comes back of a part that it holds of, holds of all
parts of what comes back. -/
theorem forall_sequences_reread {P : Outline → Prop} (hP : ∀ o, P o → P o.reread)
    {os : List Outline} (hmisreads : ∀ q ∈ sequences os, Role.misreads false (q.map role) = 0)
    (h : ∀ q ∈ sequences os, ∀ u ∈ q, P u) :
    ∀ q ∈ sequences (sequenceReread false os), ∀ u ∈ q, P u := by
  rw [sequenceReread_eq_map (hmisreads os List.mem_cons_self), sequences, List.forall_mem_cons,
    List.forall_mem_map]
  exact ⟨fun u hu => hP u (h os List.mem_cons_self u hu),
    forall_sequenceInner_reread hP (fun q hq => hmisreads q (List.mem_cons_of_mem _ hq))
      fun q hq => h q (List.mem_cons_of_mem _ hq)⟩

end Outline

namespace Tree

/-! ### The functions of a regular forest -/

/-- The name of a tree and the outlines of its arguments. -/
def callOf (t : Tree) : String × List (List Outline) :=
  (t.node.function.getD "", argumentOutlines t.children)

mutual

theorem calls_outline : ∀ {t : Tree}, t.Regular →
    t.outline.calls = (t.subtrees.filter (·.node.kind = .function)).map callOf
  | mk n children, h => by
    unfold Regular at h
    unfold outline
    rw [subtrees]
    split at h
    · next hkind => simp [hkind, h.2, Outline.calls, subtreesAll, node]
    · next hkind => simp [hkind, h.2, Outline.calls, subtreesAll, node]
    · next hkind => simp [hkind, h.2, Outline.calls, subtreesAll, node]
    · next hkind =>
      have ih := argumentCalls_outlines h.2
      rw [List.filter_cons_of_pos (by simp [node, hkind])]
      simp only [Outline.calls, ih]
      rfl
    · next hkind =>
      have ih := sequenceCalls_outlines h.2
      rw [List.filter_cons_of_neg (by simp [node, hkind])]
      simp only [Outline.calls, ih]

/-- **The calls of the outline of a regular forest are its functions.** -/
theorem sequenceCalls_outlines : ∀ {ts : List Tree}, RegularAll ts →
    Outline.sequenceCalls (outlines ts) =
      ((subtreesAll ts).filter (·.node.kind = .function)).map callOf
  | [], _ => rfl
  | t :: rest, h => by
    rw [outlines, Outline.sequenceCalls, subtreesAll, List.filter_append, List.map_append,
      calls_outline h.1, sequenceCalls_outlines h.2]

theorem argumentCalls_outlines : ∀ {slot : Nat} {ts : List Tree}, RegularArguments slot ts →
    Outline.argumentCalls (argumentOutlines ts) =
      ((subtreesAll ts).filter (·.node.kind = .function)).map callOf
  | _, [], _ => rfl
  | slot, mk n children :: rest, h => by
    obtain ⟨hkind, -, hchildren, hrest⟩ := h
    rw [argumentOutlines, Outline.argumentCalls, subtreesAll, subtrees, List.filter_append,
      List.filter_cons_of_neg (by simp [node, hkind]), List.map_append,
      sequenceCalls_outlines hchildren, argumentCalls_outlines hrest]

end

end Tree
end Formulary
