/-
# Terminal codes

What is written to a stream that need not be a terminal holds no terminal codes. A code is an escape
character and an opening bracket, then parameters (digits and the characters from the colon to the
question mark), then intermediate characters (from the blank to the slash), and one final character
(from the at sign to the tilde). A text that breaks off before the final character is no code.

Key definition: `withoutCodes`.
-/

namespace Formulary
namespace Text

/-- Whether a character is a parameter of a code. -/
def isCodeParameter (c : Char) : Bool :=
  0x30 ≤ c.toNat && c.toNat ≤ 0x3f

/-- Whether a character may stand between the parameters of a code and its final character. -/
def isCodeIntermediate (c : Char) : Bool :=
  0x20 ≤ c.toNat && c.toNat ≤ 0x2f

/-- Whether a code may end with a character. -/
def isCodeFinal (c : Char) : Bool :=
  0x40 ≤ c.toNat && c.toNat ≤ 0x7e

/-- The text behind a code, given what stands behind the escape character that may start it. -/
def behindCode? : List Char → Option (List Char)
  | '[' :: cs =>
    match (cs.dropWhile isCodeParameter).dropWhile isCodeIntermediate with
    | final :: rest => if isCodeFinal final then some rest else none
    | [] => none
  | _ => none

theorem length_lt_of_behindCode? {cs rest : List Char} (h : behindCode? cs = some rest) :
    rest.length < cs.length := by
  unfold behindCode? at h
  split at h
  · next cs =>
    have hparameters := (List.dropWhile_sublist isCodeParameter (l := cs)).length_le
    have hcode := (List.dropWhile_sublist isCodeIntermediate
      (l := cs.dropWhile isCodeParameter)).length_le
    split at h
    · next final behind hdrop =>
      split at h
      · obtain rfl := Option.some.inj h
        rw [hdrop, List.length_cons] at hcode
        simp only [List.length_cons]
        omega
      · simp at h
    · simp at h
  · simp at h

/-- The characters of a text that belong to no code. -/
def dropCodes : List Char → List Char
  | [] => []
  | c :: cs =>
    if c = '\x1b' then
      match _h : behindCode? cs with
      | some rest => dropCodes rest
      | none => c :: dropCodes cs
    else c :: dropCodes cs
termination_by cs => cs.length
decreasing_by
  · exact Nat.lt_succ_of_lt (length_lt_of_behindCode? (by assumption))
  · exact Nat.lt_succ_self _
  · exact Nat.lt_succ_self _

/-- A text without its terminal codes. -/
def withoutCodes (s : String) : String :=
  String.ofList (dropCodes s.toList)

end Text
end Formulary
