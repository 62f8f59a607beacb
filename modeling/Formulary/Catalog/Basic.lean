/-
# Catalogs of attributes

Formulas refer to attributes, which a catalog supplies: a list of entries with an identifier, the
name that stands in formulas, and the type that the catalog declares for the attribute, if any.
Identifiers and names may repeat; the first entry counts.

Key definitions: `Attribute`, `Catalog`, `Catalog.lookup?`, `Catalog.findByName?`.
-/

namespace Formulary

/-- An entry of a catalog. -/
structure Attribute where
  id : String
  name : String
  declared : Option String
deriving DecidableEq, Repr

/-- The attributes that formulas may refer to. -/
abbrev Catalog := List Attribute

namespace Catalog

/-- The first attribute with the given identifier. -/
def lookup? (catalog : Catalog) (id : String) : Option Attribute :=
  catalog.find? (·.id = id)

/-- The first attribute with the given name. -/
def findByName? (catalog : Catalog) (name : String) : Option Attribute :=
  catalog.find? (·.name = name)

/-- The catalog of names with declared types, in which a name is its own identifier. -/
def ofTypes (types : List (String × Option String)) : Catalog :=
  types.map fun (name, declared) => ⟨name, name, declared⟩

end Catalog
end Formulary
