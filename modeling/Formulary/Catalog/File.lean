/-
# Catalog files

A catalog file is a JSON list of objects. Each has an identifier and a name, which are not empty,
and may have a type; an attribute without one is declared as unknown. Other fields are passed over.
All faults of a file are found, element by element, and in each by field.

A string that is no text is refused as an identifier or a name. As a type it is taken, and since it is
the word for no type the attribute counts as unknown.

How attributes are taken from a JSON value is a parameter of the reading (`Catalog.ofText`); here it is
`Catalog.ofJson`.

Key definitions: `Catalog.ofJson`, `Catalog.ofText`, `Catalog.ofFile`, `Catalog.FileError`.
-/
import Formulary.Catalog.Basic
import Formulary.Json.Reader
import Formulary.Rejection

namespace Formulary
namespace Catalog

/-- Why a catalog file is not taken. -/
inductive FileError
  /-- It is not a JSON text. -/
  | notJson
  | rejected (faults : List Rejection)
deriving DecidableEq, Repr

/-- What was taken from a value, or what is wrong with it. -/
abbrev Checked (α : Type) := Except (List Rejection.Reason) α

/-- A string that is a text. -/
def stringOf : Json → Checked String
  | .string s => .ok s
  | .illFormed _ => .error [.notText]
  | _ => .error [.notString]

/-- A field that has to be there and not be empty. -/
def requiredField (name : String) (element : Json) : Checked String :=
  match element.field? name with
  | none => .error [.missing]
  | some value =>
    match stringOf value with
    | .ok s => if s = "" then .error [.empty] else .ok s
    | .error reasons => .error reasons

/-- The field for the type. -/
def typeField (element : Json) : Checked String :=
  match element.field? "type" with
  | none | some (.illFormed _) => .ok "unknown"
  | some value => stringOf value

/-- The faults of the field `name` of the element with the given index. -/
def faultsOf (index : Nat) (name : String) : Checked String → List Rejection
  | .ok _ => []
  | .error reasons => reasons.map (⟨[.item index, .field name], ·⟩)

/-- The attribute that an element stands for. -/
def attributeOf (index : Nat) (element : Json) : Except (List Rejection) Attribute :=
  match element with
  | .object _ =>
    let id := requiredField "id" element
    let name := requiredField "name" element
    let type := typeField element
    match id, name, type with
    | .ok id, .ok name, .ok type => .ok ⟨id, name, some type⟩
    | _, _, _ =>
      .error (faultsOf index "id" id ++ faultsOf index "name" name ++ faultsOf index "type" type)
  | _ => .error [⟨[.item index], .notObject⟩]

/-- The attributes of the elements from an index on. -/
def attributesOf : Nat → List Json → Except (List Rejection) Catalog
  | _, [] => .ok []
  | index, element :: rest =>
    match attributeOf index element, attributesOf (index + 1) rest with
    | .ok first, .ok others => .ok (first :: others)
    | .ok _, .error faults => .error faults
    | .error faults, .ok _ => .error faults
    | .error faults, .error more => .error (faults ++ more)

/-- The catalog that a JSON value stands for. -/
def ofJson : Json → Except (List Rejection) Catalog
  | .array elements => attributesOf 0 elements
  | _ => .error [⟨[], .notList⟩]

/-- The catalog in the text of a file, where `attributes` takes them from a JSON value. -/
def ofText (attributes : Json → Except (List Rejection) Catalog) (text : String) :
    Except FileError Catalog :=
  match Json.parse? text with
  | none => .error .notJson
  | some value =>
    match attributes value with
    | .ok catalog => .ok catalog
    | .error faults => .error (.rejected faults)

/-- The catalog in the text of a file. -/
def ofFile (text : String) : Except FileError Catalog :=
  ofText ofJson text

end Catalog
end Formulary
