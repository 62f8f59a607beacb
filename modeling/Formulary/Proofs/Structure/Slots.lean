/-
# The slots of a call

The arguments of a function fill its slots if each slot from zero on has one argument, as many as the
function takes. The arguments are asked in increasing order, and then nothing is wrong with their slots
if and only if they are filled in this way (`slotIssues_eq_nil_iff`).

Key definitions: `firstSlots`, `Arity.Takes`.
Key theorem: `Store.slotIssues_eq_nil_iff`.
-/
import Mathlib.Data.List.Nodup
import Mathlib.Data.List.Perm.Subperm
import Formulary.Structure

namespace Formulary

/-- A list without repetition has nothing to erase. -/
theorem eraseDups_of_nodup {α : Type} [DecidableEq α] {l : List α} (h : l.Nodup) :
    l.eraseDups = l := by
  induction l with
  | nil => rfl
  | cons a rest ih =>
    obtain ⟨ha, hrest⟩ := List.nodup_cons.mp h
    have hfilter : rest.filter (fun b => !b == a) = rest := by
      refine List.filter_eq_self.mpr fun b hb => ?_
      have hne : b ≠ a := fun heq => ha (heq ▸ hb)
      simpa using hne
    rw [List.eraseDups_cons, hfilter, ih hrest]

/-- The slots from zero on, as many as given. -/
def firstSlots (count : Nat) : List Int :=
  (List.range count).map Int.ofNat

theorem mem_firstSlots {count : Nat} {slot : Int} :
    slot ∈ firstSlots count ↔ 0 ≤ slot ∧ slot < count := by
  rw [firstSlots, List.mem_map]
  constructor
  · rintro ⟨n, hn, rfl⟩
    have hlt := List.mem_range.mp hn
    exact ⟨Int.natCast_nonneg n, Int.ofNat_lt.mpr hlt⟩
  · rintro ⟨hzero, hlt⟩
    obtain ⟨n, rfl⟩ := Int.eq_ofNat_of_zero_le hzero
    exact ⟨n, List.mem_range.mpr (Int.ofNat_lt.mp hlt), rfl⟩

theorem length_firstSlots (count : Nat) : (firstSlots count).length = count := by
  rw [firstSlots, List.length_map, List.length_range]

theorem nodup_firstSlots (count : Nat) : (firstSlots count).Nodup :=
  List.nodup_range.map fun _ _ h => Int.ofNat.inj h

theorem pairwise_firstSlots (count : Nat) : (firstSlots count).Pairwise (· ≤ ·) := by
  rw [firstSlots, List.pairwise_map]
  exact List.pairwise_lt_range.imp fun hlt => Int.ofNat_le.mpr (Nat.le_of_lt hlt)

/-- Slots without repetition are the first ones if none of them is another. -/
theorem perm_firstSlots_iff {slots : List Int} {count : Nat} :
    slots.Perm (firstSlots count) ↔
      slots.Nodup ∧ slots.length = count ∧ ∀ slot ∈ slots, 0 ≤ slot ∧ slot < count := by
  constructor
  · intro h
    refine ⟨h.nodup_iff.mpr (nodup_firstSlots count), ?_, fun slot hslot => ?_⟩
    · rw [h.length_eq, length_firstSlots]
    · exact mem_firstSlots.mp (h.mem_iff.mp hslot)
  · rintro ⟨hnodup, hlength, hrange⟩
    have hsub : slots.Subperm (firstSlots count) :=
      hnodup.subperm fun slot hslot => mem_firstSlots.mpr (hrange slot hslot)
    exact hsub.perm_of_length_le (Nat.le_of_eq ((length_firstSlots count).trans hlength.symm))

/-- Slots in increasing order are the first ones only in their order. -/
theorem eq_firstSlots_iff {slots : List Int} (hsorted : slots.Pairwise (· ≤ ·)) {count : Nat} :
    slots = firstSlots count ↔ slots.Perm (firstSlots count) := by
  refine ⟨fun h => h ▸ List.Perm.refl _, fun h => ?_⟩
  exact h.eq_of_pairwise (fun _ _ _ _ => Int.le_antisymm) hsorted (pairwise_firstSlots count)

/-- Whether arguments in the given slots are what a function of an arity takes: each of its slots has
one of them. -/
def Arity.Takes (slots : List Int) : Arity → Prop
  | exactly count => slots.Perm (firstSlots count)
  | variadic => ∃ count, slots.Perm (firstSlots count)

theorem Arity.Takes.exists_perm {slots : List Int} : ∀ {arity : Arity}, arity.Takes slots →
    ∃ count, slots.Perm (firstSlots count)
  | exactly count, h => ⟨count, h⟩
  | variadic, h => h

theorem Arity.Takes.nodup {slots : List Int} {arity : Arity} (h : arity.Takes slots) : slots.Nodup := by
  obtain ⟨count, hperm⟩ := h.exists_perm
  exact (perm_firstSlots_iff.mp hperm).1

theorem Arity.Takes.perm {slots others : List Int} (hperm : slots.Perm others) :
    ∀ {arity : Arity}, arity.Takes slots → arity.Takes others
  | exactly _, h => hperm.symm.trans h
  | variadic, ⟨count, h⟩ => ⟨count, hperm.symm.trans h⟩

namespace Store

/-- The slots that are reported as repeated are none if and only if none is. -/
theorem repeated_eq_nil_iff {slots : List Int} :
    slots.eraseDups.filter (fun slot => slots.count slot > 1) = [] ↔ slots.Nodup := by
  rw [List.filter_eq_nil_iff, List.nodup_iff_count_le_one]
  constructor
  · intro h slot
    by_cases hslot : slot ∈ slots
    · simpa using h slot (List.mem_eraseDups.mpr hslot)
    · rw [List.count_eq_zero_of_not_mem hslot]
      exact Nat.zero_le 1
  · intro h slot _
    simpa using h slot

/-- **Nothing is wrong with slots in increasing order if and only if they are what the function
takes.** -/
theorem slotIssues_eq_nil_iff {signature : Signature} {id : String} {slots : List Int}
    (hsorted : slots.Pairwise (· ≤ ·)) :
    slotIssues signature id slots = [] ↔ signature.arity.Takes slots := by
  unfold slotIssues
  rw [List.append_eq_nil_iff, List.map_eq_nil_iff, repeated_eq_nil_iff]
  constructor
  · rintro ⟨hnodup, hrest⟩
    rw [eraseDups_of_nodup hnodup] at hrest
    cases harity : signature.arity with
    | variadic =>
      simp only [harity] at hrest
      split at hrest
      · next heq => exact ⟨slots.length, (eq_firstSlots_iff hsorted).mp heq⟩
      · cases hrest
    | exactly count =>
      simp only [harity, List.append_eq_nil_iff, List.map_eq_nil_iff, List.filter_eq_nil_iff] at hrest
      obtain ⟨hlength, hrange⟩ := hrest
      split at hlength
      · next heq =>
        refine perm_firstSlots_iff.mpr ⟨hnodup, heq, fun slot hslot => ?_⟩
        have hin := hrange slot hslot
        simp only [Bool.or_eq_true, decide_eq_true_eq, not_or, Int.not_lt, Int.not_le] at hin
        exact hin
      · cases hlength
  · intro h
    refine ⟨h.nodup, ?_⟩
    rw [eraseDups_of_nodup h.nodup]
    cases harity : signature.arity with
    | variadic =>
      rw [harity] at h
      obtain ⟨count, hperm⟩ := h
      have hlength := (perm_firstSlots_iff.mp hperm).2.1
      have heq := (eq_firstSlots_iff hsorted).mpr hperm
      rw [← hlength] at heq
      exact if_pos heq
    | exactly count =>
      rw [harity] at h
      obtain ⟨-, hlength, hrange⟩ := perm_firstSlots_iff.mp h
      simp only [if_pos hlength, List.nil_append, List.map_eq_nil_iff, List.filter_eq_nil_iff]
      intro slot hslot
      obtain ⟨hzero, hlt⟩ := hrange slot hslot
      simp only [Bool.or_eq_true, decide_eq_true_eq, not_or, Int.not_lt, Int.not_le]
      exact ⟨hzero, hlt⟩

end Store
end Formulary
