/-
# The outline and the text of a forest

The trees of a store have outlines of their own. A tree has the shape of a formula if leaves have nothing
below them, the arguments of a function are groups with the slots from zero on, and no argument stands
in a sequence; it is regular if every node has the field of its kind, too, as in a formula read from a
text. The canonical text of a forest of this shape is the layout of its outline, if the catalog knows
its references and its numbers are finite (`sequenceText_of_formed`).

Key definitions: `Tree.outline`, `Tree.Formed`, `Tree.Regular`, `Node.Sound`.
Key theorem: `Tree.sequenceText_of_formed`.
-/
import Formulary.Canonical
import Formulary.Proofs.Outline.Scan

namespace Formulary

/-- Whether a node has the field of its kind, and a text can express what the field holds. -/
def Node.Sound (catalog : Catalog) (node : Node) : Prop :=
  match node.kind with
  | .reference => ∃ id, node.reference = some id ∧ catalog.Expresses id
  | .operator => ∃ symbol, node.operator = some symbol ∧ isOperator symbol = true
  | .value => ∃ n, node.value = some n ∧ n.Plain
  | .function => ∃ name, node.function = some name ∧ isFunctionName name = true
  | .group => True

namespace Tree

mutual

/-- The outline of a tree. -/
def outline : Tree → Outline
  | mk node children =>
    match node.kind with
    | .reference => .reference (node.reference.getD "")
    | .operator => .operator (node.operator.getD "")
    | .value => .value (node.value.getD (.integer 0))
    | .function => .call (node.function.getD "") (argumentOutlines children)
    | .group => .group (outlines children)

/-- The outline of a sequence of trees. -/
def outlines : List Tree → List Outline
  | [] => []
  | tree :: rest => tree.outline :: outlines rest

/-- The outlines of the arguments of a function. -/
def argumentOutlines : List Tree → List (List Outline)
  | [] => []
  | mk _ children :: rest => outlines children :: argumentOutlines rest

end

mutual

/-- Whether a tree has the shape of that of a term, whatever its nodes hold. -/
def Formed : Tree → Prop
  | mk node children =>
    match node.kind with
    | .reference | .operator | .value => children = []
    | .function => FormedArguments 0 children
    | .group => node.slot = none ∧ FormedAll children

/-- Whether trees have the shape of those of a sequence of terms. -/
def FormedAll : List Tree → Prop
  | [] => True
  | tree :: rest => tree.Formed ∧ FormedAll rest

/-- Whether trees have the shape of those of the arguments of a call from a slot on. -/
def FormedArguments : Nat → List Tree → Prop
  | _, [] => True
  | slot, mk node children :: rest =>
    node.kind = .group ∧ node.slot = some (slot : Int) ∧ FormedAll children ∧
      FormedArguments (slot + 1) rest

end

mutual

/-- Whether a tree could be that of a term. -/
def Regular : Tree → Prop
  | mk node children =>
    match node.kind with
    | .reference => node.reference.isSome = true ∧ children = []
    | .operator => node.operator.isSome = true ∧ children = []
    | .value => node.value.isSome = true ∧ children = []
    | .function => node.function.isSome = true ∧ RegularArguments 0 children
    | .group => node.slot = none ∧ RegularAll children

/-- Whether trees could be those of a sequence of terms. -/
def RegularAll : List Tree → Prop
  | [] => True
  | tree :: rest => tree.Regular ∧ RegularAll rest

/-- Whether trees could be those of the arguments of a call from a slot on. -/
def RegularArguments : Nat → List Tree → Prop
  | _, [] => True
  | slot, mk node children :: rest =>
    node.kind = .group ∧ node.slot = some (slot : Int) ∧ RegularAll children ∧
      RegularArguments (slot + 1) rest

end

mutual

theorem formed_of_regular : ∀ {t : Tree}, t.Regular → t.Formed
  | mk node children, h => by
    unfold Regular at h
    unfold Formed
    split at h
    · next hkind => simpa only [hkind] using h.2
    · next hkind => simpa only [hkind] using h.2
    · next hkind => simpa only [hkind] using h.2
    · next hkind => simpa only [hkind] using formedArguments_of_regular h.2
    · next hkind => simpa only [hkind] using ⟨h.1, formedAll_of_regular h.2⟩

/-- Regular trees have the shape of those of a sequence. -/
theorem formedAll_of_regular : ∀ {ts : List Tree}, RegularAll ts → FormedAll ts
  | [], _ => trivial
  | _ :: _, h => ⟨formed_of_regular h.1, formedAll_of_regular h.2⟩

theorem formedArguments_of_regular : ∀ {slot : Nat} {ts : List Tree}, RegularArguments slot ts →
    FormedArguments slot ts
  | _, [], _ => trivial
  | _, mk _ _ :: _, h =>
    ⟨h.1, h.2.1, formedAll_of_regular h.2.2.1, formedArguments_of_regular h.2.2.2⟩

end

/-- No tree of a sequence of terms is an argument. -/
theorem isArgument_of_formed {t : Tree} (h : t.Formed) : t.node.isArgument = false := by
  obtain ⟨node, children⟩ := t
  unfold Formed at h
  unfold Node.isArgument Tree.node
  split at h
  · next hkind => simp [hkind]
  · next hkind => simp [hkind]
  · next hkind => simp [hkind]
  · next hkind => simp [hkind]
  · next hkind => simp [h.1]

variable {catalog : Catalog} {placeholder : String}

/-- What a tree stands for can be expressed if its node can. -/
theorem sound_outline {t : Tree} (h : t.node.Sound catalog) : t.outline.Sound catalog := by
  obtain ⟨node, children⟩ := t
  have h : node.Sound catalog := h
  unfold Node.Sound at h
  unfold outline
  cases hkind : node.kind with
  | group => trivial
  | _ =>
    simp only [hkind] at h
    obtain ⟨field, hfield, hsound⟩ := h
    rw [hfield]
    exact hsound

/-! ### The text of marks -/

theorem text_word (word : String) : Mark.text catalog (.word word) = word.toList := by
  simp only [Mark.text, Mark.piece]
  split <;> rfl

theorem text_value (number : Number) : Mark.text catalog (.value number) = number.text := by
  simp [Mark.text, Mark.piece, Piece.text, Lexeme.ofNumber, Lexeme.spelling]

theorem text_reference {id : String} (h : (Mark.reference id).Written catalog) :
    Mark.text catalog (.reference id) = referenceText catalog placeholder (some id) := by
  obtain ⟨hid, hsome⟩ := h
  obtain ⟨found, hfound⟩ := Option.isSome_iff_exists.mp hsome
  simp [Mark.text, Mark.piece, Piece.text, Lexeme.spelling, referenceText, hid, hfound]

theorem toList_ne_nil_of_isWordRun {word : String} (h : isWordRun word.toList = true) :
    word.toList ≠ [] := by
  intro hnil
  rw [hnil] at h
  cases h

theorem text_ne_nil {m : Mark} (h : m.Written catalog) : m.text catalog ≠ [] := by
  cases m with
  | word word =>
    rw [text_word]
    rcases h with h | h
    · exact toList_ne_nil_of_isWordRun (isWordRun_of_isFunctionName h)
    · exact toList_ne_nil_of_isWordRun (isWordRun_of_isOperator h)
  | value number =>
    obtain ⟨q, hq⟩ := h
    rw [text_value]
    exact Number.text_ne_nil hq
  | _ => exact List.cons_ne_nil _ _

/-- A part that can be expressed has a text. -/
theorem flatMap_marks_ne_nil {o : Outline} (h : ∀ m ∈ o.marks, m.Written catalog) :
    o.marks.flatMap (Mark.text catalog) ≠ [] := by
  obtain ⟨m, hm⟩ : ∃ m, m ∈ o.marks := by
    cases o <;> exact ⟨_, List.mem_cons_self⟩
  intro hnil
  exact text_ne_nil (h m hm) (List.flatMap_eq_nil_iff.mp hnil m hm)

/-- The text of the layout of a part. -/
def partText (catalog : Catalog) (o : Outline) : List Char :=
  o.marks.flatMap (Mark.text catalog)

/-- The text of the layout of a sequence. -/
def layoutText (catalog : Catalog) (os : List Outline) : List Char :=
  (Outline.sequenceMarks os).flatMap (Mark.text catalog)

theorem mem_sequenceMarks {m : Mark} {o : Outline} (hm : m ∈ o.marks) : ∀ {os : List Outline},
    o ∈ os → m ∈ Outline.sequenceMarks os
  | [u], ho => by
    obtain rfl := List.mem_singleton.mp ho
    exact hm
  | u :: v :: rest, ho => by
    rw [Outline.sequenceMarks_cons_cons, List.mem_append, List.mem_cons]
    rcases List.mem_cons.mp ho with rfl | ho
    · exact .inl hm
    · exact .inr (.inr (mem_sequenceMarks hm ho))

theorem mem_argumentMarks {m : Mark} {a : List Outline} (hm : m ∈ Outline.sequenceMarks a) :
    ∀ {as : List (List Outline)}, a ∈ as → m ∈ Outline.argumentMarks as
  | [b], ha => by
    obtain rfl := List.mem_singleton.mp ha
    exact hm
  | b :: c :: rest, ha => by
    rw [Outline.argumentMarks_cons_cons, List.mem_append, List.mem_cons, List.mem_cons]
    rcases List.mem_cons.mp ha with rfl | ha
    · exact .inl hm
    · exact .inr (.inr (.inr (mem_argumentMarks hm ha)))

theorem joined_parts (catalog : Catalog) (os : List Outline) :
    joined [' '] (os.map (partText catalog)) = layoutText catalog os := by
  induction os with
  | nil => rfl
  | cons o rest ih =>
    cases rest with
    | nil => rfl
    | cons u rest =>
      rw [List.map_cons, List.map_cons, joined, ← List.map_cons, ih, layoutText, layoutText,
        Outline.sequenceMarks_cons_cons, List.flatMap_append, List.flatMap_cons, List.append_assoc]
      · rfl
      · exact List.cons_ne_nil _ _

theorem joined_arguments (catalog : Catalog) (as : List (List Outline)) :
    joined [',', ' '] (as.map (layoutText catalog)) =
      (Outline.argumentMarks as).flatMap (Mark.text catalog) := by
  induction as with
  | nil => rfl
  | cons a rest ih =>
    cases rest with
    | nil => rfl
    | cons b rest =>
      rw [List.map_cons, List.map_cons, joined, ← List.map_cons, ih, layoutText,
        Outline.argumentMarks_cons_cons, List.flatMap_append, List.flatMap_cons, List.flatMap_cons,
        List.append_assoc]
      · rfl
      · exact List.cons_ne_nil _ _

/-! ### The text of a forest -/

theorem text_number (value : Option Number) :
    numberText value = Mark.text catalog (.value (value.getD (.integer 0))) := by
  rw [text_value]
  cases value <;> rfl

mutual

/-- The text of a tree is the layout of its outline. -/
theorem text_of_formed : ∀ {t : Tree}, t.Formed → (∀ m ∈ t.outline.marks, m.Written catalog) →
    text catalog placeholder t = partText catalog t.outline
  | mk node children, h, hmarks => by
    unfold Formed at h
    unfold outline at hmarks ⊢
    unfold text partText
    split at h
    · next hkind =>
      simp only [hkind] at hmarks ⊢
      have hwritten : (Mark.reference (node.reference.getD "")).Written catalog :=
        hmarks _ List.mem_cons_self
      cases hid : node.reference with
      | none =>
        rw [hid] at hwritten
        exact absurd rfl hwritten.1
      | some id =>
        rw [hid, Option.getD_some] at hwritten
        rw [Outline.marks, List.flatMap_singleton, Option.getD_some, ← text_reference hwritten]
    · next hkind =>
      simp only [hkind] at hmarks ⊢
      rw [Outline.marks, List.flatMap_singleton, text_word]
    · next hkind =>
      simp only [hkind] at hmarks ⊢
      rw [Outline.marks, List.flatMap_singleton, text_number]
    · next hkind =>
      simp only [hkind, Outline.marks, List.cons_append, List.mem_cons, List.mem_append] at hmarks ⊢
      have hargs := argumentTexts_of_formed h fun a ha m hm =>
        hmarks m (.inr (.inr (.inl (mem_argumentMarks hm ha))))
      have hjoined := joined_arguments catalog (argumentOutlines children)
      rw [← hargs] at hjoined
      rw [List.flatMap_cons, List.flatMap_cons, List.flatMap_append, text_word, List.append_assoc]
      exact congrArg (fun cs => (node.function.getD "").toList ++ '(' :: (cs ++ [')'])) hjoined
    · next hkind =>
      simp only [hkind, Outline.marks, List.cons_append, List.mem_cons, List.mem_append] at hmarks ⊢
      have hbody := parts_of_formed h.2 fun o ho m hm =>
        hmarks m (.inr (.inl (mem_sequenceMarks hm ho)))
      have hjoined := joined_parts catalog (outlines children)
      rw [← hbody] at hjoined
      rw [List.flatMap_cons, List.flatMap_append]
      exact congrArg (fun cs => '(' :: (cs ++ [')'])) hjoined

/-- The texts of a sequence of trees, none of which is empty. -/
theorem parts_of_formed : ∀ {ts : List Tree}, FormedAll ts →
    (∀ o ∈ outlines ts, ∀ m ∈ o.marks, m.Written catalog) →
    (parts catalog placeholder ts).filter (!·.isEmpty) = (outlines ts).map (partText catalog)
  | [], _, _ => rfl
  | t :: rest, h, hmarks => by
    have ht := text_of_formed h.1 (hmarks _ List.mem_cons_self)
    have ih := parts_of_formed h.2
      fun o ho => hmarks o (List.mem_cons_of_mem _ ho)
    have hne : (partText catalog t.outline).isEmpty = false := by
      simpa [partText] using flatMap_marks_ne_nil (hmarks _ List.mem_cons_self)
    rw [parts, isArgument_of_formed h.1, if_neg Bool.false_ne_true, ht,
      List.filter_cons_of_pos (by rw [hne]; rfl), ih]
    rfl

/-- The texts of the arguments of a function. -/
theorem argumentTexts_of_formed : ∀ {slot : Nat} {ts : List Tree}, FormedArguments slot ts →
    (∀ a ∈ argumentOutlines ts, ∀ m ∈ Outline.sequenceMarks a, m.Written catalog) →
    argumentTexts catalog placeholder slot ts = (argumentOutlines ts).map (layoutText catalog)
  | _, [], _, _ => rfl
  | slot, mk node children :: rest, h, hmarks => by
    obtain ⟨-, hslot, hchildren, hrest⟩ := h
    have hbody := parts_of_formed hchildren fun o ho m hm =>
      hmarks _ List.mem_cons_self m (mem_sequenceMarks hm ho)
    have ih := argumentTexts_of_formed hrest
      fun a ha => hmarks a (List.mem_cons_of_mem _ ha)
    have hnext : ((slot : Int) + 1) = ((slot + 1 : Nat) : Int) := by omega
    rw [argumentTexts, hslot, hbody, joined_parts]
    simp only [Option.getD_some, Int.lt_irrefl, if_false, Int.sub_self, hnext, ih]
    rfl

end

/-- **The canonical text of a forest with the shape of a formula is the layout of its outline**, if the
catalog knows its references and its numbers are finite. -/
theorem sequenceText_of_formed {ts : List Tree} (h : FormedAll ts)
    (hmarks : ∀ m ∈ Outline.sequenceMarks (outlines ts), m.Written catalog) :
    sequenceText catalog placeholder ts = layoutText catalog (outlines ts) := by
  rw [sequenceText, parts_of_formed h fun o ho m hm => hmarks m (mem_sequenceMarks hm ho),
    joined_parts]

theorem sequenceText_of_written {ts : List Tree} (h : RegularAll ts)
    (hmarks : ∀ m ∈ Outline.sequenceMarks (outlines ts), m.Written catalog) :
    sequenceText catalog placeholder ts = layoutText catalog (outlines ts) :=
  sequenceText_of_formed (formedAll_of_regular h) hmarks

theorem sequenceText_of_spelled {ts : List Tree} (h : RegularAll ts)
    (hmarks : ∀ m ∈ Outline.sequenceMarks (outlines ts), m.Spelled catalog) :
    sequenceText catalog placeholder ts = layoutText catalog (outlines ts) :=
  sequenceText_of_written h fun m hm => (hmarks m hm).written

theorem sequenceText_of_regular {ts : List Tree} (h : RegularAll ts)
    (hmarks : ∀ m ∈ Outline.sequenceMarks (outlines ts), m.Printable catalog) :
    sequenceText catalog placeholder ts = layoutText catalog (outlines ts) :=
  sequenceText_of_spelled h fun m hm => (hmarks m hm).spelled

end Tree
end Formulary
