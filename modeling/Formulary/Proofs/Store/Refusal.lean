/-
# What an edit fails for

An edit fails if an identifier of a new node is in use, a position is none, a node is missing, a change
would alter an identifier or a field that nodes do not have, or two nodes are no adjacent siblings. Of
several reasons the one that is checked first counts. `Store.Refuses` says all this of the store alone, and
it is exactly what edits fail for (`Store.outcome_eq_error_iff`).

Key definitions: `Store.outcome`, `Store.Refuses`.
Key theorems: `Store.Refuses.outcome`, `Store.refuses_or_ok`, `Store.outcome_eq_error_iff`.
-/
import Formulary.Proofs.Store.Siblings

namespace Formulary
namespace Store

/-- What an edit gives back and the store that it leaves, or why it fails. -/
def outcome (store : Store) (fresh : Nat → String) :
    Edit → Except EditError (Edited × Store)
  | .add new after => (store.add (new.make (fresh 0)) after).map (.node (new.make (fresh 0)), ·)
  | .insertRelative new target position =>
    (store.insertRelative (new.make (fresh 0)) target position).map fun r => (.node r.1, r.2)
  | .update id changes => (store.update id changes).map fun r => (.node r.1, r.2)
  | .delete id => (store.delete id).map fun r => (.node r.1, r.2)
  | .setFunction id name => (store.setFunction id name fresh).map fun r => (.arguments r.1, r.2)
  | .insertOperator before after operator =>
    (store.insertOperator before after operator (fresh 0)).map fun r => (.node r.1, r.2)

/-- Whether a store refuses an edit, and why. New nodes take their identifiers from `fresh`. -/
inductive Refuses (store : Store) (fresh : Nat → String) : Edit → EditError → Prop
  | addInUse {new : NewNode} {after : Option String}
    (hused : (new.make (fresh 0)).id ∈ idsOf store.nodes) :
    Refuses store fresh (.add new after) (.idInUse (new.make (fresh 0)).id)
  | addMissing {new : NewNode} {after : String}
    (hfree : (new.make (fresh 0)).id ∉ idsOf store.nodes) (hmissing : after ∉ idsOf store.nodes) :
    Refuses store fresh (.add new (some after)) (.missingNode after)
  | insertAstray {new : NewNode} {target position : String}
    (hposition : position ∉ ["before", "after"]) :
    Refuses store fresh (.insertRelative new target position) (.badPosition position)
  | insertInUse {new : NewNode} {target position : String}
    (hposition : position ∈ ["before", "after"])
    (hused : (new.make (fresh 0)).id ∈ idsOf store.nodes) :
    Refuses store fresh (.insertRelative new target position) (.idInUse (new.make (fresh 0)).id)
  | insertMissing {new : NewNode} {target position : String}
    (hposition : position ∈ ["before", "after"])
    (hfree : (new.make (fresh 0)).id ∉ idsOf store.nodes) (hmissing : target ∉ idsOf store.nodes) :
    Refuses store fresh (.insertRelative new target position) (.missingNode target)
  | updateId {id new : String} {changes : List Change} (hid : .id new ∈ changes) :
    Refuses store fresh (.update id changes) .fixedId
  | updateMissing {id : String} {changes : List Change} (hid : ∀ new, .id new ∉ changes)
    (hmissing : id ∉ idsOf store.nodes) :
    Refuses store fresh (.update id changes) (.missingNode id)
  /-- Of several fields that nodes do not have the first is named. -/
  | updateUnknown {id name : String} {known rest : List Change}
    (hid : ∀ new, .id new ∉ known ++ .other name :: rest) (hnode : id ∈ idsOf store.nodes)
    (hknown : ∀ other, .other other ∉ known) :
    Refuses store fresh (.update id (known ++ .other name :: rest)) (.unknownField name)
  | deleteMissing {id : String} (hmissing : id ∉ idsOf store.nodes) :
    Refuses store fresh (.delete id) (.missingNode id)
  | setFunctionMissing {id : String} {name : Option String} (hmissing : id ∉ idsOf store.nodes) :
    Refuses store fresh (.setFunction id name) (.missingNode id)
  | operatorMissingBefore {before after : String} {operator : Option String}
    (hmissing : before ∉ idsOf store.nodes) :
    Refuses store fresh (.insertOperator before after operator) (.missingNode before)
  | operatorMissingAfter {before after : String} {operator : Option String}
    (hbefore : before ∈ idsOf store.nodes) (hmissing : after ∉ idsOf store.nodes) :
    Refuses store fresh (.insertOperator before after operator) (.missingNode after)
  | operatorApart {before after : String} {operator : Option String}
    (hbefore : before ∈ idsOf store.nodes) (hafter : after ∈ idsOf store.nodes)
    (hapart : ¬store.NextSibling before after) :
    Refuses store fresh (.insertOperator before after operator) (.notAdjacent before after)
  | operatorInUse {before after : String} {operator : Option String}
    (hnext : store.NextSibling before after) (hused : fresh 0 ∈ idsOf store.nodes) :
    Refuses store fresh (.insertOperator before after operator) (.idInUse (fresh 0))

/-! ### The checks -/

variable {store : Store} {node : Node}

theorem isId_iff {changes : List Change} :
    changes.any (·.isId) = true ↔ ∃ new, .id new ∈ changes := by
  rw [List.any_eq_true]
  constructor
  · rintro ⟨change, hmem, hid⟩
    cases change with
    | id new => exact ⟨new, hmem⟩
    | _ => cases hid
  · rintro ⟨new, hmem⟩
    exact ⟨_, hmem, rfl⟩

theorem unknownField?_eq_none_iff {change : Change} :
    change.unknownField? = none ↔ ∀ name, change ≠ .other name := by
  cases change <;> simp [Change.unknownField?]

theorem findSome?_unknownField?_iff {changes : List Change} {name : String} :
    changes.findSome? (·.unknownField?) = some name ↔
      ∃ known rest, changes = known ++ .other name :: rest ∧ ∀ other, .other other ∉ known := by
  rw [List.findSome?_eq_some_iff]
  constructor
  · rintro ⟨known, change, rest, heq, hname, hknown⟩
    cases change with
    | other own =>
      obtain rfl := Option.some.inj hname
      exact ⟨known, rest, heq, fun other hmem =>
        unknownField?_eq_none_iff.mp (hknown _ hmem) other rfl⟩
    | _ => cases hname
  · rintro ⟨known, rest, heq, hknown⟩
    refine ⟨known, .other name, rest, heq, rfl, fun change hmem => ?_⟩
    exact unknownField?_eq_none_iff.mpr fun other hother => hknown other (hother ▸ hmem)

theorem isBeside_iff {position : String} :
    (position ≠ "before" && position ≠ "after") = true ↔ position ∉ ["before", "after"] := by
  simp

/-! ### Refusals are the failures -/

variable {fresh : Nat → String} {edit : Edit} {e : EditError}

/-- An edit that is refused fails for the reason of the refusal. -/
theorem Refuses.outcome (h : store.Refuses fresh edit e) : store.outcome fresh edit = .error e := by
  cases h with
  | addInUse hused =>
    simp only [Store.outcome, add, requireNew_of_mem hused, error_bind, Except.map]
  | addMissing hfree hmissing =>
    simp only [Store.outcome, add, requireNew_of_notMem hfree, require_of_notMem hmissing, ok_bind,
      error_bind, Except.map]
  | insertAstray hposition =>
    rw [Store.outcome, insertRelative, if_pos (isBeside_iff.mpr hposition)]
    rfl
  | insertInUse hposition hused =>
    rw [Store.outcome, insertRelative, if_neg (isBeside_iff.not.mpr (not_not_intro hposition)),
      requireNew_of_mem hused]
    rfl
  | insertMissing hposition hfree hmissing =>
    rw [Store.outcome, insertRelative, if_neg (isBeside_iff.not.mpr (not_not_intro hposition)),
      requireNew_of_notMem hfree, require_of_notMem hmissing]
    rfl
  | updateId hid =>
    rw [Store.outcome, update, if_pos (isId_iff.mpr ⟨_, hid⟩)]
    rfl
  | updateMissing hid hmissing =>
    rw [Store.outcome, update, if_neg (isId_iff.not.mpr (not_exists.mpr hid)),
      require_of_notMem hmissing]
    rfl
  | @updateUnknown id name known rest hid hnode hknown =>
    obtain ⟨node, -, hrequire⟩ := exists_require hnode
    have hname : (known ++ .other name :: rest).findSome? (·.unknownField?) = some name :=
      findSome?_unknownField?_iff.mpr ⟨known, rest, rfl, hknown⟩
    rw [Store.outcome, update, if_neg (isId_iff.not.mpr (not_exists.mpr hid)), hrequire]
    simp only [ok_bind, hname]
    rfl
  | deleteMissing hmissing =>
    rw [Store.outcome, delete, require_of_notMem hmissing]
    rfl
  | setFunctionMissing hmissing =>
    rw [Store.outcome, setFunction, update, require_of_notMem hmissing]
    rfl
  | operatorMissingBefore hmissing =>
    rw [Store.outcome, insertOperator, requireAdjacent, require_of_notMem hmissing]
    rfl
  | operatorMissingAfter hbefore hmissing =>
    obtain ⟨left, -, hleft⟩ := exists_require hbefore
    rw [Store.outcome, insertOperator, requireAdjacent, hleft, require_of_notMem hmissing]
    rfl
  | operatorApart hbefore hafter hapart =>
    rw [Store.outcome, insertOperator, requireAdjacent_of_apart hbefore hafter hapart]
    rfl
  | operatorInUse hnext hused =>
    obtain ⟨left, hleft, -⟩ := exists_require hnext.mem.1
    simp only [Store.outcome, insertOperator, requireAdjacent_of_next hleft hnext, ok_bind, add]
    rw [requireNew_of_mem hused]
    rfl

/-- An edit that is not refused succeeds. -/
theorem refuses_or_ok (store : Store) (fresh : Nat → String) (edit : Edit) :
    (∃ e, store.Refuses fresh edit e) ∨ ∃ result, store.outcome fresh edit = .ok result := by
  cases edit with
  | add new after =>
    by_cases hused : (new.make (fresh 0)).id ∈ idsOf store.nodes
    · exact .inl ⟨_, .addInUse hused⟩
    · cases after with
      | none =>
        refine .inr ?_
        simp only [outcome, add, requireNew_of_notMem hused, ok_bind]
        exact ⟨_, rfl⟩
      | some id =>
        by_cases hid : id ∈ idsOf store.nodes
        · obtain ⟨target, -, htarget⟩ := exists_require hid
          refine .inr ?_
          simp only [outcome, add, requireNew_of_notMem hused, ok_bind, htarget]
          exact ⟨_, rfl⟩
        · exact .inl ⟨_, .addMissing hused hid⟩
  | insertRelative new target position =>
    by_cases hposition : position ∈ ["before", "after"]
    · by_cases hused : (new.make (fresh 0)).id ∈ idsOf store.nodes
      · exact .inl ⟨_, .insertInUse hposition hused⟩
      · by_cases htarget : target ∈ idsOf store.nodes
        · obtain ⟨sibling, -, hsibling⟩ := exists_require htarget
          refine .inr ?_
          rw [outcome, insertRelative, if_neg (isBeside_iff.not.mpr (not_not_intro hposition)),
            requireNew_of_notMem hused, hsibling]
          simp only [ok_bind]
          split <;> exact ⟨_, rfl⟩
        · exact .inl ⟨_, .insertMissing hposition hused htarget⟩
    · exact .inl ⟨_, .insertAstray hposition⟩
  | update id changes =>
    by_cases hid : ∃ new, .id new ∈ changes
    · obtain ⟨new, hnew⟩ := hid
      exact .inl ⟨_, .updateId hnew⟩
    · have hnone : ∀ new, .id new ∉ changes := not_exists.mp hid
      by_cases hnode : id ∈ idsOf store.nodes
      · cases hunknown : changes.findSome? (·.unknownField?) with
        | some name =>
          obtain ⟨known, rest, rfl, hknown⟩ := findSome?_unknownField?_iff.mp hunknown
          exact .inl ⟨_, .updateUnknown hnone hnode hknown⟩
        | none =>
          obtain ⟨node, -, hrequire⟩ := exists_require hnode
          refine .inr ?_
          rw [outcome, update, if_neg (isId_iff.not.mpr hid), hrequire]
          simp only [ok_bind, hunknown]
          exact ⟨_, rfl⟩
      · exact .inl ⟨_, .updateMissing hnone hnode⟩
  | delete id =>
    by_cases hnode : id ∈ idsOf store.nodes
    · obtain ⟨node, -, hrequire⟩ := exists_require hnode
      refine .inr ?_
      rw [outcome, delete, hrequire]
      exact ⟨_, rfl⟩
    · exact .inl ⟨_, .deleteMissing hnode⟩
  | setFunction id name =>
    by_cases hnode : id ∈ idsOf store.nodes
    · obtain ⟨node, hget, -⟩ := exists_require hnode
      obtain ⟨kept, -, hedit⟩ := setFunction_of_get? hget name fresh
      refine .inr ?_
      rw [outcome, hedit]
      exact ⟨_, rfl⟩
    · exact .inl ⟨_, .setFunctionMissing hnode⟩
  | insertOperator before after operator =>
    by_cases hbefore : before ∈ idsOf store.nodes
    · by_cases hafter : after ∈ idsOf store.nodes
      · by_cases hnext : store.NextSibling before after
        · by_cases hused : fresh 0 ∈ idsOf store.nodes
          · exact .inl ⟨_, .operatorInUse hnext hused⟩
          · obtain ⟨left, hleft, -⟩ := exists_require hbefore
            refine .inr ?_
            rw [outcome, insertOperator_of_next hleft hnext hused]
            exact ⟨_, rfl⟩
        · exact .inl ⟨_, .operatorApart hbefore hafter hnext⟩
      · exact .inl ⟨_, .operatorMissingAfter hbefore hafter⟩
    · exact .inl ⟨_, .operatorMissingBefore hbefore⟩

/-- **An edit fails for the reason for which it is refused, and for no other.** -/
theorem outcome_eq_error_iff : store.outcome fresh edit = .error e ↔ store.Refuses fresh edit e := by
  refine ⟨fun herror => ?_, Refuses.outcome⟩
  rcases refuses_or_ok store fresh edit with ⟨reason, hrefuses⟩ | ⟨result, hok⟩
  · obtain rfl := Except.error.inj (herror.symm.trans hrefuses.outcome)
    exact hrefuses
  · rw [hok] at herror
    cases herror

end Store
end Formulary
