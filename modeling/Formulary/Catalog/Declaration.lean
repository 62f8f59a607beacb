/-
# Attributes declared on the command line

An attribute is declared as `NAME=TYPE` or as `NAME` alone. Blanks around either part do not count.
The name has to have some other character; a type that has none is unknown.

Key definition: `Attribute.ofDeclaration?`.
-/
import Formulary.Catalog.Basic
import Formulary.Text.Trim

namespace Formulary

/-- The part of a text before its first equals sign, and the part behind it. -/
def splitAtEquals (text : String) : String × String :=
  (String.ofList (text.toList.takeWhile (· ≠ '=')),
    String.ofList ((text.toList.dropWhile (· ≠ '=')).drop 1))

/-- The attribute that a declaration stands for; its name is its identifier. -/
def Attribute.ofDeclaration? (declaration : String) : Option Attribute :=
  let (name, declared) := splitAtEquals declaration
  let name := Text.trim name
  let declared := Text.trim declared
  if name = "" then none
  else some ⟨name, name, some (if declared = "" then "unknown" else declared)⟩

/-- The message for a declaration that has no name. -/
def badDeclarationMessage (declaration : String) : String :=
  "'" ++ declaration ++ "' is not of the form NAME=TYPE"

end Formulary
