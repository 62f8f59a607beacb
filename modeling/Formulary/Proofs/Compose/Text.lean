/-
# Reading is compositional

A text in parentheses is read as a group around what the text alone is read into. A function name with
texts in its parentheses, with commas between them, is read as a call with what each text alone is read
into as one argument, if no text has a comma outside parentheses; and two texts with the symbol of an
operator between them are read into one sequence. The diagnostics are those of the texts, moved to where
the texts stand (`Formula.read_parts`).

Key definitions: `Node.under`, `Part.placed`, `Part.callNodes`, `Formula.ReadsAs`.
Key theorems: `Part.read_group`, `Part.read_call`, `Part.read_operation`, `Formula.read_parts`.
-/
import Formulary.Proofs.Compose.Part
import Formulary.Proofs.Tree.Terms

namespace Formulary

/-! ### Nodes below an owner -/

/-- A node below an owner, if it is a root. -/
def Node.under (owner : String) (node : Node) : Node :=
  { node with parent := some (node.parent.getD owner) }

theorem Node.under_of_parent {owner parent : String} {node : Node} (h : node.parent = some parent) :
    node.under owner = node := by
  rw [under, h]
  cases node
  cases h
  rfl

namespace Term

theorem sequenceNodes_append (parent : Option String) (k : Nat) (ts us : List Term) :
    sequenceNodes parent k (ts ++ us) = sequenceNodes parent k ts ++
      sequenceNodes parent (k + (sequenceNodes parent k ts).length) us := by
  induction ts generalizing k with
  | nil => rfl
  | cons t ts ih =>
    rw [List.cons_append, sequenceNodes, sequenceNodes, ih, List.length_append, List.append_assoc,
      Nat.add_assoc]

/-- Nodes below a parent have a parent. -/
theorem under_preorder {ts : List Tree} {parent : String} (h : Tree.LinkedAll (some parent) ts)
    (owner : String) : (Tree.preorderAll ts).map (Node.under owner) = Tree.preorderAll ts := by
  refine (List.map_congr_left fun node hnode => ?_).trans (List.map_id _)
  rcases Tree.parent_of_mem_preorderAll h hnode with hparent | ⟨above, -, hparent⟩
  · exact Node.under_of_parent hparent
  · exact Node.under_of_parent hparent

theorem nodes_some (owner : String) (k : Nat) (t : Term) :
    t.nodes (some owner) k = (t.nodes none k).map (Node.under owner) := by
  cases t with
  | call position name parens arguments =>
    rw [nodes, nodes, List.map_cons, ← preorder_argumentTrees,
      under_preorder (linked_argumentTrees _ _ _ arguments)]
    rfl
  | group parens body =>
    rw [nodes, nodes, List.map_cons, ← preorder_sequenceTrees,
      under_preorder (linked_sequenceTrees _ _ body)]
    rfl
  | _ => rfl

/-- **Only the roots of a sequence change** when it is put below a parent. -/
theorem sequenceNodes_some (owner : String) (k : Nat) (ts : List Term) :
    sequenceNodes (some owner) k ts = (sequenceNodes none k ts).map (Node.under owner) := by
  induction ts generalizing k with
  | nil => rfl
  | cons t ts ih =>
    rw [sequenceNodes, sequenceNodes, List.map_append, ih, nodes_some, List.length_map]

end Term

/-! ### Parts and what is made of them -/

/-- Whether a text is read under a limit, with the given diagnostics and, where `k` identifiers are
issued already, the nodes that are given for `k`. -/
def Formula.ReadsAs (limit : Int) (catalog : Catalog) (text : String) (diagnostics : List Diagnostic)
    (nodes : Nat → List Node) : Prop :=
  ∃ formula, read limit catalog text = .ok formula ∧ formula.diagnostics = diagnostics ∧
    ∀ k, (formula.store k).nodes = nodes k

/-- A text is read as its pieces are, if nothing is open at their end. -/
theorem Formula.readsAs_of_pieces {limit : Int} {catalog : Catalog} {text : String} {ps : List Piece}
    {terms : List Term} {notes diagnostics : List Diagnostic} {nodes : Nat → List Node}
    {first last : Nat} (hpieces : pieces text.toList = ps)
    (hread : Progress.read limit catalog (tokensFrom 0 ps) .start =
      .ok ⟨[], terms.reverse, notes.reverse⟩)
    (hordered : Ordered first last (droppedFrom 0 ps) notes diagnostics)
    (hnodes : ∀ k, Term.sequenceNodes none k terms = nodes k) :
    ReadsAs limit catalog text diagnostics nodes := by
  subst hpieces
  have hformula : read limit catalog text = .ok _ := read_of_progress hread
  rw [Progress.closeAll, List.reverse_reverse, List.reverse_reverse] at hformula
  exact ⟨_, hformula, hordered.diagnostics_eq, hnodes⟩

namespace Part

variable {limit : Int} {catalog : Catalog}

/-- The nodes of a part, where `k` identifiers are issued already. -/
def nodes (part : Part limit catalog) (k : Nat) : List Node :=
  (part.formula.store k).nodes

/-- The nodes of a part with an owner above its roots. -/
def nodesUnder (owner : String) (part : Part limit catalog) (k : Nat) : List Node :=
  (part.nodes k).map (Node.under owner)

/-- The places of parts with a comma between them, from a place on. -/
def placed : Nat → List (Part limit catalog) → List (Nat × Part limit catalog)
  | _, [] => []
  | n, part :: rest => (n, part) :: placed (n + part.text.length + 1) rest

/-- The argument groups with the nodes of parts, from a slot on. -/
def groups (owner : String) (slot k : Nat) : List (Part limit catalog) → List Node
  | [] => []
  | part :: rest =>
    .ofGroup (nodeId (k + 1)) (some owner) (some slot) :: part.nodesUnder (nodeId (k + 1)) (k + 1) ++
      groups owner (slot + 1) (k + 1 + (part.nodes (k + 1)).length) rest

/-- Whether there is one part, and no token in it. -/
def isBlank : List (Part limit catalog) → Bool
  | [part] => part.formula.scan.tokens.isEmpty
  | _ => false

/-- The text of a call with a part for each argument. -/
def callText (name : String) (parts : List (Part limit catalog)) : String :=
  name ++ "(" ++ ",".intercalate (parts.map text) ++ ")"

/-- The nodes of a call with a part for each argument; it has none if nothing stands between its
parentheses. -/
def callNodes (name : String) (parts : List (Part limit catalog)) (k : Nat) : List Node :=
  .ofFunction (nodeId (k + 1)) none (some name) ::
    if isBlank parts then [] else groups (nodeId (k + 1)) 0 (k + 1) parts

theorem sequenceNodes_termsAt (parent : Option String) (k n : Nat) (part : Part limit catalog) :
    Term.sequenceNodes parent k (part.termsAt n) = Term.sequenceNodes parent k part.formula.terms := by
  rw [termsAt, ← Term.sequenceMoved_eq_map, Term.sequenceNodes_moved]

theorem sequenceNodes_termsAt_some (owner : String) (k n : Nat) (part : Part limit catalog) :
    Term.sequenceNodes (some owner) k (part.termsAt n) = part.nodesUnder owner k := by
  rw [sequenceNodes_termsAt, Term.sequenceNodes_some]
  rfl

/-! ### Groups -/

/-- **A part in parentheses** is read as a group around what it is read into. -/
theorem read_group (part : Part limit catalog) :
    Formula.ReadsAs (max limit 0 + 1) catalog ("(" ++ part.text ++ ")") (part.diagnosticsAt 1)
      fun k => .ofGroup (nodeId (k + 1)) none none :: part.nodesUnder (nodeId (k + 1)) (k + 1) := by
  have hpieces : pieces ("(" ++ part.text ++ ")").toList =
      .lexeme .opening :: (pieces part.text.toList ++ [.lexeme .closing]) := by
    have hlist : ("(" ++ part.text ++ ")").toList = '(' :: (part.text.toList ++ [')']) := by simp
    rw [hlist, pieces_opening, part.pieces_append (endsRun_cons (by simp) []), pieces_closing, pieces]
  have hread : Progress.read (max limit 0 + 1) catalog
      (⟨.opening, 0⟩ :: tokensFrom 1 (pieces part.text.toList ++ [.lexeme .closing])) .start =
        .ok ⟨[], [.group ⟨0, some (1 + part.text.length)⟩ (part.termsAt 1)].reverse,
          (part.notesAt 1).reverse⟩ := by
    rw [part.tokensFrom_pieces, tokensFrom, Progress.read_opening (by simp [Progress.start]),
      part.read_append 1 (by simp [Progress.enter, Progress.start]) rfl rfl (.inl rfl),
      Progress.read_closing]
    simp [tokensFrom, Progress.read, Progress.leave, Progress.extend, Progress.enter, Progress.start,
      Frame.close]
  have hdropped : droppedFrom 1 (pieces part.text.toList ++ [.lexeme .closing]) = part.droppedAt 1 :=
    (part.droppedFrom_pieces 1 _).trans (List.append_nil _)
  have hordered := part.ordered 1
  rw [← hdropped] at hordered
  refine Formula.readsAs_of_pieces hpieces hread hordered fun k => ?_
  rw [Term.sequenceNodes, Term.sequenceNodes, List.append_nil, Term.nodes,
    sequenceNodes_termsAt_some]

/-! ### Operations -/

/-- The pieces of two parts with the symbol of an operator between them. -/
def operationPieces (first second : Part limit catalog) (symbol : String) : List Piece :=
  pieces first.text.toList ++ .blank ' ' :: .lexeme (.operator symbol) :: .blank ' ' ::
    (pieces second.text.toList ++ [])

theorem pieces_operation (first second : Part limit catalog) {symbol : String}
    (hoperator : isOperator symbol = true) (hfunction : isFunctionName symbol = false) :
    pieces (first.text ++ " " ++ symbol ++ " " ++ second.text).toList =
      operationPieces first second symbol := by
  have hlist : (first.text ++ " " ++ symbol ++ " " ++ second.text).toList =
      first.text.toList ++ ' ' :: (symbol.toList ++ ' ' :: second.text.toList) := by simp
  have hsymbol : pieces (symbol.toList ++ ' ' :: second.text.toList) =
      .lexeme (.operator symbol) :: pieces (' ' :: second.text.toList) :=
    pieces_lexeme (l := .operator symbol) ⟨hoperator, hfunction⟩ fun _ => endsRun_cons (by simp) _
  rw [hlist, first.pieces_append (endsRun_cons (by simp) _), pieces_space, hsymbol, pieces_space,
    operationPieces, List.append_nil]

theorem tokensFrom_operation (first second : Part limit catalog) (symbol : String) :
    tokensFrom 0 (operationPieces first second symbol) =
      first.tokensAt 0 ++ ⟨.operator symbol, first.text.length + 1⟩ ::
        (second.tokensAt (first.text.length + 1 + symbol.length + 1) ++ []) := by
  rw [operationPieces, first.tokensFrom_pieces]
  simp only [tokensFrom, second.tokensFrom_pieces, Piece.text, Lexeme.spelling,
    List.length_singleton, String.length_toList, Nat.zero_add]

theorem droppedFrom_operation (first second : Part limit catalog) (symbol : String) :
    droppedFrom 0 (operationPieces first second symbol) =
      first.droppedAt 0 ++ second.droppedAt (first.text.length + 1 + symbol.length + 1) := by
  rw [operationPieces, first.droppedFrom_pieces]
  simp only [droppedFrom, second.droppedFrom_pieces, Piece.text, Lexeme.spelling,
    List.length_singleton, String.length_toList, Nat.zero_add]
  rw [List.append_nil]

/-- **Two parts with the symbol of an operator between them** are read into one sequence. -/
theorem read_operation (first second : Part limit catalog) {symbol : String}
    (hoperator : isOperator symbol = true) (hfunction : isFunctionName symbol = false) :
    Formula.ReadsAs limit catalog (first.text ++ " " ++ symbol ++ " " ++ second.text)
      (first.diagnosticsAt 0 ++ second.diagnosticsAt (first.text.length + 1 + symbol.length + 1))
      fun k => first.nodes k ++
        .ofOperator (nodeId (k + (first.nodes k).length + 1)) none (some symbol) ::
          second.nodes (k + (first.nodes k).length + 1) := by
  have hread : Progress.read limit catalog (tokensFrom 0 (operationPieces first second symbol)) .start =
      .ok ⟨[], (first.termsAt 0 ++ .operator (first.text.length + 1) symbol ::
          second.termsAt (first.text.length + 1 + symbol.length + 1)).reverse,
        (first.notesAt 0 ++ second.notesAt (first.text.length + 1 + symbol.length + 1)).reverse⟩ := by
    -- Behind the operator the second part is read as at the start of a text.
    rw [tokensFrom_operation, first.read_append 0 (by simp [Progress.start]) rfl rfl (.inl rfl),
      Progress.read_symbol,
      second.read_append _ (by simp [Progress.start, Progress.extend, Progress.push]) rfl rfl (.inl rfl)]
    simp [Progress.read, Progress.extend, Progress.push, Progress.start]
  have hordered := (first.ordered 0).append
    (second.ordered (first.text.length + 1 + symbol.length + 1)) (by omega) (by omega) (by omega)
  rw [← droppedFrom_operation] at hordered
  refine Formula.readsAs_of_pieces (pieces_operation first second hoperator hfunction) hread hordered
    fun k => ?_
  rw [Term.sequenceNodes_append, Term.sequenceNodes, sequenceNodes_termsAt, sequenceNodes_termsAt]
  rfl

/-! ### Calls -/

/-- The pieces of parts with commas between them and a closing parenthesis behind them. -/
def argumentPieces (first : Part limit catalog) : List (Part limit catalog) → List Piece
  | [] => pieces first.text.toList ++ [.lexeme .closing]
  | next :: rest => pieces first.text.toList ++ .lexeme .comma :: argumentPieces next rest

theorem pieces_arguments (first : Part limit catalog) (rest : List (Part limit catalog)) :
    pieces ([','].intercalate ((first :: rest).map (·.text.toList)) ++ [')']) =
      argumentPieces first rest := by
  induction rest generalizing first with
  | nil =>
    rw [List.map_singleton, List.intercalate_singleton,
      first.pieces_append (endsRun_cons (by simp) []), pieces_closing, pieces, argumentPieces]
  | cons next rest ih =>
    rw [List.map_cons, List.map_cons, List.intercalate_cons_cons, List.append_assoc, List.append_assoc,
      List.singleton_append, first.pieces_append (endsRun_cons (by simp) _), pieces_comma,
      argumentPieces, ← ih next, List.map_cons]

theorem droppedFrom_arguments (n : Nat) (first : Part limit catalog)
    (rest : List (Part limit catalog)) : droppedFrom n (argumentPieces first rest) =
      (placed n (first :: rest)).flatMap fun place => place.2.droppedAt place.1 := by
  induction rest generalizing n first with
  | nil =>
    rw [argumentPieces, first.droppedFrom_pieces]
    rfl
  | cons next rest ih =>
    rw [argumentPieces, first.droppedFrom_pieces, placed, List.flatMap_cons, ← ih]
    rfl

/-- The diagnostics of parts with commas between them are in the order of the text. -/
theorem ordered_placed (n : Nat) (parts : List (Part limit catalog)) : ∃ last, n ≤ last ∧
    Ordered n last ((placed n parts).flatMap fun place => place.2.droppedAt place.1)
      ((placed n parts).flatMap fun place => place.2.notesAt place.1)
      ((placed n parts).flatMap fun place => place.2.diagnosticsAt place.1) := by
  induction parts generalizing n with
  | nil => exact ⟨n, Nat.le_refl n, .refl _, .nil, fun _ hd => by cases hd⟩
  | cons part rest ih =>
    obtain ⟨last, hle, hrest⟩ := ih (n + part.text.length + 1)
    exact ⟨last, by omega, (part.ordered n).append hrest (by omega) (by omega) (by omega)⟩

theorem argumentNodes_placed (owner : String) (slot k n : Nat) (parts : List (Part limit catalog)) :
    Term.argumentNodes owner slot k ((placed n parts).map fun place => place.2.termsAt place.1) =
      groups owner slot k parts := by
  induction parts generalizing slot k n with
  | nil => rfl
  | cons part rest ih =>
    rw [placed, List.map_cons, Term.argumentNodes, sequenceNodes_termsAt_some, ih, groups, nodesUnder,
      List.length_map]

/-- **Parts with commas between them are read as arguments**, inside a call that is open. -/
theorem read_arguments {greater : Int} (hlimit : limit + 1 ≤ greater) (name : String)
    (position opening : Nat) {first : Part limit catalog} {rest : List (Part limit catalog)}
    (hcommas : ∀ part ∈ first :: rest, commasInside 0 part.formula.scan.tokens = true)
    (n : Nat) (arguments : List (List Term)) (notes : List Diagnostic) :
    ∃ closing, Progress.read greater catalog (tokensFrom n (argumentPieces first rest))
        ⟨[⟨.call position name arguments, opening, []⟩], [], notes⟩ =
      .ok ⟨[], [.call position name (some ⟨opening, some closing⟩)
          (arguments.reverse ++ (placed n (first :: rest)).map fun place => place.2.termsAt place.1)],
        ((placed n (first :: rest)).flatMap fun place => place.2.notesAt place.1).reverse ++ notes⟩ := by
  induction rest generalizing first n arguments notes with
  | nil =>
    refine ⟨n + first.text.length, ?_⟩
    rw [argumentPieces, first.tokensFrom_pieces, tokensFrom,
      first.read_append n hlimit rfl rfl (.inr (hcommas first List.mem_cons_self)),
      Progress.read_closing]
    simp [tokensFrom, Progress.read, Progress.leave, Progress.extend, Frame.close, placed]
  | cons next rest ih =>
    obtain ⟨closing, hread⟩ := ih (fun part hpart => hcommas part (List.mem_cons_of_mem _ hpart))
      (n + first.text.length + 1) (first.termsAt n :: arguments) ((first.notesAt n).reverse ++ notes)
    refine ⟨closing, ?_⟩
    rw [argumentPieces, first.tokensFrom_pieces, tokensFrom,
      first.read_append n hlimit rfl rfl (.inr (hcommas first List.mem_cons_self)),
      Progress.read_comma]
    have hstate : (Progress.extend n first
          ⟨[⟨.call position name arguments, opening, []⟩], [], notes⟩).separate
            (n + first.text.length) =
        ⟨[⟨.call position name (first.termsAt n :: arguments), opening, []⟩], [],
          (first.notesAt n).reverse ++ notes⟩ := by
      simp [Progress.separate, Progress.extend]
    rw [hstate]
    exact hread.trans (by simp [placed])

/-- A part without tokens has no terms, and nothing is noted of it. -/
theorem eq_nil_of_tokens_eq_nil {part : Part limit catalog} (h : part.formula.scan.tokens = []) :
    part.formula.terms = [] ∧ part.formula.notes = [] := by
  have hread := part.read_start
  rw [h] at hread
  obtain ⟨-, hterms, hnotes⟩ := Progress.mk.inj (Except.ok.inj hread)
  exact ⟨List.reverse_eq_nil_iff.mp hterms.symm, List.reverse_eq_nil_iff.mp hnotes.symm⟩

theorem startsClosing_append {part : Part limit catalog} {more : List Token} (n : Nat)
    (h : part.formula.scan.tokens = [] → Token.startsClosing more = false) :
    Token.startsClosing (part.tokensAt n ++ more) = false := by
  have hpart := part.startsClosing_tokens
  rcases htokens : part.formula.scan.tokens with _ | ⟨⟨l, position⟩, tokens⟩
  · rw [tokensAt, htokens]
    exact h htokens
  · rw [tokensAt, htokens]
    rw [htokens] at hpart
    cases l with
    | closing => cases hpart
    | _ => rfl

/-- What stands in the parentheses of a call does not start with a closing one, unless it has no
tokens. -/
theorem startsClosing_arguments {first : Part limit catalog} {rest : List (Part limit catalog)}
    (h : isBlank (first :: rest) = false) (n : Nat) :
    Token.startsClosing (tokensFrom n (argumentPieces first rest)) = false := by
  cases rest with
  | nil =>
    rw [argumentPieces, first.tokensFrom_pieces]
    refine startsClosing_append n fun hnil => ?_
    rw [isBlank, hnil] at h
    cases h
  | cons next rest =>
    rw [argumentPieces, first.tokensFrom_pieces]
    exact startsClosing_append n fun _ => rfl

theorem pieces_call {name : String} (hname : isFunctionName name = true) (first : Part limit catalog)
    (rest : List (Part limit catalog)) : pieces (callText name (first :: rest)).toList =
      .lexeme (.function name) :: .lexeme .opening :: argumentPieces first rest := by
  have hlist : (callText name (first :: rest)).toList = name.toList ++ '(' ::
      ([','].intercalate ((first :: rest).map (·.text.toList)) ++ [')']) := by
    simp [callText, String.toList_intercalate, Function.comp_def]
  have hfunction (cs : List Char) : pieces (name.toList ++ '(' :: cs) =
      .lexeme (.function name) :: pieces ('(' :: cs) :=
    pieces_lexeme (l := .function name) hname fun _ => endsRun_cons (by simp) cs
  rw [hlist, hfunction, pieces_opening, pieces_arguments]

theorem tokensFrom_call (name : String) (first : Part limit catalog) (rest : List (Part limit catalog)) :
    tokensFrom 0 (.lexeme (.function name) :: .lexeme .opening :: argumentPieces first rest) =
      ⟨.function name, 0⟩ :: ⟨.opening, name.length⟩ ::
        tokensFrom (name.length + 1) (argumentPieces first rest) := by
  simp only [tokensFrom, Lexeme.spelling, List.length_singleton, String.length_toList, Nat.zero_add]

theorem droppedFrom_call (name : String) (first : Part limit catalog)
    (rest : List (Part limit catalog)) :
    droppedFrom 0 (.lexeme (.function name) :: .lexeme .opening :: argumentPieces first rest) =
      (placed (name.length + 1) (first :: rest)).flatMap fun place => place.2.droppedAt place.1 := by
  simp only [droppedFrom, Piece.text, Lexeme.spelling, List.length_singleton, String.length_toList,
    Nat.zero_add, ← droppedFrom_arguments]

/-- Where something stands between its parentheses, a call has an argument for each part. -/
theorem progress_call (name : String) {first : Part limit catalog} {rest : List (Part limit catalog)}
    (hcommas : ∀ part ∈ first :: rest, commasInside 0 part.formula.scan.tokens = true) :
    ∃ closing, Progress.read (max limit 0 + 1) catalog (⟨.function name, 0⟩ :: ⟨.opening, name.length⟩ ::
        tokensFrom (name.length + 1) (argumentPieces first rest)) .start =
      .ok ⟨[], [.call 0 name (some ⟨name.length, some closing⟩)
          (if isBlank (first :: rest) then []
            else (placed (name.length + 1) (first :: rest)).map fun place =>
              place.2.termsAt place.1)].reverse,
        ((placed (name.length + 1) (first :: rest)).flatMap fun place =>
          place.2.notesAt place.1).reverse⟩ := by
  have hlimit : ((Progress.start.frames.length : Nat) : Int) + 1 ≤ max limit 0 + 1 := by
    simp [Progress.start]
  have hword : (isOperator name && Progress.start.followsOperand) = false := Bool.and_false _
  cases hblank : isBlank (first :: rest) with
  | true =>
    cases rest with
    | cons next rest => cases hblank
    | nil =>
      have hnil : first.formula.scan.tokens = [] := List.isEmpty_iff.mp hblank
      refine ⟨name.length + 1 + first.text.length, ?_⟩
      rw [argumentPieces, first.tokensFrom_pieces, tokensAt, hnil, tokensFrom, List.map_nil,
        List.nil_append, Progress.read_bareCall hlimit hword]
      simp [tokensFrom, Progress.read, Progress.push, Progress.start, placed, notesAt,
        (eq_nil_of_tokens_eq_nil hnil).2]
  | false =>
    obtain ⟨closing, hread⟩ := read_arguments (Int.add_le_add_right (Int.le_max_left limit 0) 1) name 0
      name.length hcommas (name.length + 1) [] []
    refine ⟨closing, ?_⟩
    rw [Progress.read_call hlimit hword ?_ (startsClosing_arguments hblank _)]
    · rw [List.append_nil] at hread
      exact hread
    · intro hnil
      rw [hnil, Progress.read] at hread
      cases hread

/-- **A function name with parts in its parentheses** is read as a call with an argument for each. -/
theorem read_call {name : String} (hname : isFunctionName name = true)
    {parts : List (Part limit catalog)} (hne : parts ≠ [])
    (hcommas : ∀ part ∈ parts, commasInside 0 part.formula.scan.tokens = true) :
    Formula.ReadsAs (max limit 0 + 1) catalog (callText name parts)
      ((placed (name.length + 1) parts).flatMap fun place => place.2.diagnosticsAt place.1)
      (callNodes name parts) := by
  obtain ⟨first, rest, rfl⟩ := List.exists_cons_of_ne_nil hne
  obtain ⟨closing, hread⟩ := progress_call name hcommas
  obtain ⟨last, -, hordered⟩ := ordered_placed (name.length + 1) (first :: rest)
  rw [← tokensFrom_call] at hread
  rw [← droppedFrom_call] at hordered
  refine Formula.readsAs_of_pieces (pieces_call hname first rest) hread hordered fun k => ?_
  rw [Term.sequenceNodes, Term.sequenceNodes, List.append_nil, Term.nodes, callNodes]
  split
  · rfl
  · rw [argumentNodes_placed]

end Part

namespace Formula

/-- **Reading is compositional.** What a text is read into does not depend on the parentheses, commas and
operators around it, and neither do its diagnostics, but for their places. Parentheses around a text take
one level more; a limit below zero allows as many levels as zero does. -/
theorem read_parts (limit : Int) (catalog : Catalog) :
    (∀ part : Part limit catalog,
      ReadsAs (max limit 0 + 1) catalog ("(" ++ part.text ++ ")") (part.diagnosticsAt 1) fun k =>
        .ofGroup (nodeId (k + 1)) none none :: part.nodesUnder (nodeId (k + 1)) (k + 1)) ∧
    (∀ (name : String) (parts : List (Part limit catalog)), isFunctionName name = true → parts ≠ [] →
      (∀ part ∈ parts, commasInside 0 part.formula.scan.tokens = true) →
      ReadsAs (max limit 0 + 1) catalog (name ++ "(" ++ ",".intercalate (parts.map Part.text) ++ ")")
        ((Part.placed (name.length + 1) parts).flatMap fun place => place.2.diagnosticsAt place.1)
        (Part.callNodes name parts)) ∧
    ∀ (symbol : String) (first second : Part limit catalog), isOperator symbol = true →
      isFunctionName symbol = false →
      ReadsAs limit catalog (first.text ++ " " ++ symbol ++ " " ++ second.text)
        (first.diagnosticsAt 0 ++ second.diagnosticsAt (first.text.length + 1 + symbol.length + 1))
        fun k => first.nodes k ++
          .ofOperator (nodeId (k + (first.nodes k).length + 1)) none (some symbol) ::
            second.nodes (k + (first.nodes k).length + 1) :=
  ⟨Part.read_group, fun _ _ hname hne hcommas => Part.read_call hname hne hcommas,
    fun _ first second hoperator hfunction => Part.read_operation first second hoperator hfunction⟩

end Formula

theorem pieces_stray : pieces "(,)".toList =
    [.lexeme .opening, .lexeme .comma, .lexeme .closing] := by
  have hspaced : Spaced [.lexeme .opening, .lexeme .comma, .lexeme .closing] :=
    ⟨trivial, by decide, trivial, by decide, trivial, by decide, trivial⟩
  exact pieces_layout hspaced

/-- A group with a comma in it, which is noted. -/
def Part.stray : Part 1 [] where
  text := "(,)"
  formula := {
    scan := { tokens := [⟨.opening, 0⟩, ⟨.comma, 1⟩, ⟨.closing, 2⟩], diagnostics := [], finish := 3 }
    terms := [.group ⟨0, some 2⟩ []]
    notes := [⟨.strayComma, 1⟩] }
  read := by
    have hscan : Scan.ofText "(,)" = ⟨[⟨.opening, 0⟩, ⟨.comma, 1⟩, ⟨.closing, 2⟩], [], 3⟩ := by
      rw [Scan.ofText, pieces_stray]
      rfl
    rw [Formula.read_eq, hscan]
    rfl
  paired := by decide

theorem pieces_word : pieces "NOT".toList = [.lexeme (.function "NOT")] := by
  have hspaced : Spaced [.lexeme (.function "NOT")] := ⟨rfl, by decide, trivial⟩
  exact pieces_layout hspaced

/-- A word that is an operator without parentheses behind it. -/
def Part.word : Part 1 [] where
  text := "NOT"
  formula := {
    scan := { tokens := [⟨.function "NOT", 0⟩], diagnostics := [], finish := 3 }
    terms := [.operator 0 "NOT"]
    notes := [] }
  read := by
    have hscan : Scan.ofText "NOT" = ⟨[⟨.function "NOT", 0⟩], [], 3⟩ := by
      rw [Scan.ofText, pieces_word]
      rfl
    rw [Formula.read_eq, hscan]
    rfl
  paired := by decide

/-- The comma inside the first argument does not divide the arguments of the call around it. -/
theorem Formula.read_parts_stray :
    ReadsAs 2 [] "((,))" [⟨.strayComma, 2⟩] (fun k =>
      [.ofGroup (nodeId (k + 1)) none none, .ofGroup (nodeId (k + 2)) (some (nodeId (k + 1))) none]) ∧
    ReadsAs 2 [] "AND((,),NOT)" [⟨.strayComma, 5⟩] (fun k =>
      [.ofFunction (nodeId (k + 1)) none (some "AND"),
        .ofGroup (nodeId (k + 2)) (some (nodeId (k + 1))) (some 0),
        .ofGroup (nodeId (k + 3)) (some (nodeId (k + 2))) none,
        .ofGroup (nodeId (k + 4)) (some (nodeId (k + 1))) (some 1),
        .ofOperator (nodeId (k + 5)) (some (nodeId (k + 4))) (some "NOT")]) ∧
    ReadsAs 1 [] "NOT + (,)" [⟨.strayComma, 7⟩] fun k =>
      [.ofOperator (nodeId (k + 1)) none (some "NOT"), .ofOperator (nodeId (k + 2)) none (some "+"),
        .ofGroup (nodeId (k + 3)) none none] := by
  have hgroup := (read_parts 1 []).1 Part.stray
  have hcall := (read_parts 1 []).2.1 "AND" [Part.stray, Part.word] (by decide) (by simp)
    (by decide)
  have hoperation := (read_parts 1 []).2.2 "+" Part.word Part.stray (by decide) (by decide)
  exact ⟨hgroup, hcall, hoperation⟩

end Formulary
