/-
# Attributes have identifiers and names

Neither a catalog file nor a declaration on the command line is taken if an attribute in it has no name,
and the identifier of an attribute is never empty: a file has to have one, and a declared attribute has
its name for one. So all attributes that a command knows have both, although several may have the same
(`Command.named_append`).

Key definition: `Catalog.Named`.
Key theorems: `Catalog.named_of_ofFile`, `Command.named_append`.
-/
import Formulary.Command.Basic

namespace Formulary

/-- Whether the identifier and the name of an attribute are not empty. -/
def Attribute.Named (a : Attribute) : Prop :=
  a.id ≠ "" ∧ a.name ≠ ""

namespace Catalog

/-- Whether no identifier and no name in a catalog is empty. -/
def Named (catalog : Catalog) : Prop :=
  ∀ a ∈ catalog, a.Named

theorem ne_empty_of_requiredField {name s : String} {element : Json}
    (h : requiredField name element = .ok s) : s ≠ "" := by
  unfold requiredField at h
  cases hfield : element.field? name with
  | none =>
    rw [hfield] at h
    cases h
  | some value =>
    rw [hfield] at h
    cases hstring : stringOf value with
    | error reasons =>
      simp only [hstring] at h
      cases h
    | ok found =>
      simp only [hstring] at h
      split at h
      · cases h
      · next hne => exact Except.ok.inj h ▸ hne

theorem named_of_attributeOf {index : Nat} {element : Json} {a : Attribute}
    (h : attributeOf index element = .ok a) : a.Named := by
  unfold attributeOf at h
  split at h
  · next fields =>
    simp only at h
    split at h
    · next id name type hid hname _ =>
      obtain rfl := Except.ok.inj h
      exact ⟨ne_empty_of_requiredField hid, ne_empty_of_requiredField hname⟩
    · cases h
  · cases h

theorem named_of_attributesOf : ∀ {index : Nat} {elements : List Json} {catalog : Catalog},
    attributesOf index elements = .ok catalog → catalog.Named
  | _, [], catalog, h => by
    obtain rfl := Except.ok.inj h
    exact List.forall_mem_nil _
  | index, element :: rest, catalog, h => by
    unfold attributesOf at h
    split at h
    · next first others hfirst hothers =>
      obtain rfl := Except.ok.inj h
      exact List.forall_mem_cons.mpr ⟨named_of_attributeOf hfirst, named_of_attributesOf hothers⟩
    all_goals cases h

/-- The attributes of a file have identifiers and names. -/
theorem named_of_ofFile {text : String} {catalog : Catalog} (h : ofFile text = .ok catalog) :
    catalog.Named := by
  unfold ofFile ofText at h
  split at h
  · cases h
  · next value _ =>
    split at h
    · next found hfound =>
      obtain rfl := Except.ok.inj h
      unfold ofJson at hfound
      split at hfound
      · exact named_of_attributesOf hfound
      · cases hfound
    · cases h

end Catalog

theorem Attribute.named_of_ofDeclaration? {declaration : String} {a : Attribute}
    (h : ofDeclaration? declaration = some a) : a.Named := by
  unfold ofDeclaration? at h
  simp only at h
  split at h
  · cases h
  · next hne =>
    obtain rfl := Option.some.inj h
    exact ⟨hne, hne⟩

namespace Command

theorem named_of_fileAttributes {text : Option String} {catalog : Catalog}
    (h : fileAttributes text = .ok catalog) : catalog.Named := by
  unfold fileAttributes attributesIn at h
  split at h
  · obtain rfl := Except.ok.inj h
    exact List.forall_mem_nil _
  · split at h
    · next found hfound =>
      obtain rfl := Except.ok.inj h
      exact @Catalog.named_of_ofFile _ _ hfound
    all_goals cases h

theorem named_of_declaredAttributes {declarations : List String} {catalog : Catalog}
    (h : declaredAttributes declarations = .ok catalog) : catalog.Named := by
  induction declarations generalizing catalog with
  | nil =>
    obtain rfl := Except.ok.inj h
    exact List.forall_mem_nil _
  | cons declaration rest ih =>
    rw [declaredAttributes] at h
    split at h
    · cases h
    · next found hfound =>
      cases hrest : declaredAttributes rest with
      | error e =>
        rw [hrest] at h
        cases h
      | ok others =>
        rw [hrest] at h
        have heq : found :: others = catalog := Except.ok.inj h
        rw [← heq]
        exact List.forall_mem_cons.mpr ⟨Attribute.named_of_ofDeclaration? hfound, ih hrest⟩

/-- **All attributes that a command knows have identifiers and names.** -/
theorem named_append {text : Option String} {declarations : List String} {fromFile declared : Catalog}
    (hfile : fileAttributes text = .ok fromFile)
    (hdeclared : declaredAttributes declarations = .ok declared) :
    Catalog.Named (fromFile ++ declared) :=
  List.forall_mem_append.mpr
    ⟨named_of_fileAttributes hfile, named_of_declaredAttributes hdeclared⟩

end Command
end Formulary
