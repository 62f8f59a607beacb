/-
# Spans of calls are nested

Of the tokens only the parentheses matter, and behind which tokens they are opened: they are what the spans
are found from, and the depth that is kept for each is the number of the calls around it
(`CallSpan.closedIn_eq`). Spans are found when calls are closed. In the order in which calls are opened they
can be read off the parentheses as well: one is closed where behind it one closing parenthesis is too many,
and if there is no such place, its call has no span (`CallSpan.perm_closedAmong`). So of two calls the later
one is opened behind the earlier one or inside it, and if inside, then it is closed inside it too
(`CallSpan.pairwise_openedAmong`). The calls that are open where a call is opened are those
around it, and each of them has a span that contains the call or is never closed
(`CallSpan.depth_of_mem_openedAmong`).

Key definitions: `CallSpan.Paren`, `CallSpan.closingBehind`, `CallSpan.openedAmong`, `CallSpan.unclosedAmong`,
`CallSpan.Within`.
Key theorems: `CallSpan.closedIn_eq`, `CallSpan.perm_closedAmong`, `CallSpan.pairwise_openedAmong`,
`CallSpan.depth_of_mem_openedAmong`, `callSpans_nested`.
-/
import Formulary.Proofs.Token.Tiled
import Formulary.Token.Span

namespace Formulary

/-! ### Tokens stand apart -/

/-- Whether one text stands in another at a position. -/
def StandsAt (text : List Char) (position : Nat) (part : List Char) : Prop :=
  part <+: text.drop position

theorem StandsAt.behind {text part : List Char} {position : Nat} (h : StandsAt text position part)
    (front : List Char) : StandsAt (front ++ text) (front.length + position) part := by
  rw [StandsAt, List.drop_append, List.drop_of_length_le (Nat.le_add_right _ _), Nat.add_sub_cancel_left]
  exact h

namespace Tiled

variable {position : Nat} {cs : List Char} {tokens : List Token} {diagnostics : List Diagnostic}

/-- Tokens stand where they say. -/
theorem standsAt_of_mem (h : Tiled position cs tokens diagnostics) : ∀ t ∈ tokens,
    position ≤ t.position ∧ StandsAt cs (t.position - position) t.lexeme.spelling := by
  have hbehind : ∀ {place : Nat} {front rest : List Char} {t : Token},
      place + front.length ≤ t.position ∧
        StandsAt rest (t.position - (place + front.length)) t.lexeme.spelling →
      place ≤ t.position ∧ StandsAt (front ++ rest) (t.position - place) t.lexeme.spelling := by
    rintro place front rest t ⟨hle, hstands⟩
    have hplace : t.position - place = front.length + (t.position - (place + front.length)) := by omega
    exact ⟨by omega, hplace ▸ hstands.behind front⟩
  induction h with
  | finish position => exact fun _ ht => (List.not_mem_nil ht).elim
  | @blank _ c _ _ _ _ _ ih => exact fun t ht => @hbehind _ [c] _ t (ih t ht)
  | @token place l cs tokens _ _ _ ih =>
    intro t ht
    rcases List.mem_cons.mp ht with rfl | ht
    · refine ⟨Nat.le_refl _, ?_⟩
      rw [Nat.sub_self]
      exact List.prefix_append _ _
    · exact hbehind (ih t ht)
  | dropped _ _ ih => exact fun t ht => hbehind (ih t ht)

/-- A token ends before the next one starts. -/
theorem pairwise_tokens (h : Tiled position cs tokens diagnostics) :
    tokens.Pairwise fun t u => t.position + t.lexeme.spelling.length ≤ u.position := by
  induction h with
  | finish position => exact .nil
  | blank _ _ ih => exact ih
  | token _ hrest ih => exact List.pairwise_cons.mpr ⟨fun u hu => (hrest.standsAt_of_mem u hu).1, ih⟩
  | dropped _ _ ih => exact ih

end Tiled

namespace CallSpan

/-! ### Parentheses -/

/-- A parenthesis, and what it opens. -/
inductive Paren
  | opening (bracket : Bracket) (position : Nat)
  | closing (position : Nat)

/-- The parentheses in a list of tokens behind the tokens `before` and `previous`. -/
def parens (before previous : Option Token) : List Token → List Paren
  | [] => []
  | ⟨.opening, position⟩ :: rest =>
    .opening (.behind before previous position) position ::
      parens previous (some ⟨.opening, position⟩) rest
  | ⟨.closing, position⟩ :: rest => .closing position :: parens previous (some ⟨.closing, position⟩) rest
  | token :: rest => parens previous (some token) rest

/-- The spans that end among parentheses, with the brackets that are open, innermost first; in the order in
which the calls are closed. -/
def closedAmong : List Bracket → List Paren → List CallSpan
  | _, [] => []
  | stack, .opening bracket _ :: rest => closedAmong (bracket :: stack) rest
  | .call name start opening :: outer, .closing position :: rest =>
    ⟨name, start, opening, position, outer.countP (·.isCall)⟩ :: closedAmong outer rest
  | .group :: outer, .closing _ :: rest => closedAmong outer rest
  | [], .closing _ :: rest => closedAmong [] rest

/-- The place of a parenthesis, with the name in front of it if it opens a call. -/
def Paren.first : Paren → Nat
  | .opening (.call _ start _) _ => start
  | .opening .group position => position
  | .closing position => position

/-- The position of a parenthesis. -/
def Paren.position : Paren → Nat
  | .opening _ position => position
  | .closing position => position

/-- Whether a parenthesis and the name in front of it are among tokens. -/
def Paren.IsAmong (tokens : List Token) : Paren → Prop
  | .opening (.call name start place) position =>
    place = position ∧ start < position ∧
      ⟨.function name, start⟩ ∈ tokens ∧ ⟨.opening, position⟩ ∈ tokens
  | .opening .group position => ⟨.opening, position⟩ ∈ tokens
  | .closing position => ⟨.closing, position⟩ ∈ tokens

/-- Whether parentheses are among tokens and one behind the other, each together with the name in front of
it. -/
structure Ordered (tokens : List Token) (parentheses : List Paren) : Prop where
  among : ∀ p ∈ parentheses, p.IsAmong tokens
  pairwise : parentheses.Pairwise fun p q => p.position < q.first

variable {before previous : Option Token} {stack : List Bracket} {tokens : List Token}
  {parentheses rest : List Paren} {paren : Paren} {span : CallSpan} {position level : Nat}

/-- The depth with which brackets are open, if each was opened with the depth of those around it. -/
inductive Counted : Nat → List (Bracket × Nat) → Prop
  | nil : Counted 0 []
  | cons {depth : Nat} {stack : List (Bracket × Nat)} (bracket : Bracket) (h : Counted depth stack) :
    Counted (depth + bracket.isCall.toNat) ((bracket, depth) :: stack)

theorem Counted.eq_countP {depth : Nat} {stack : List (Bracket × Nat)} (h : Counted depth stack) :
    depth = (stack.map Prod.fst).countP (·.isCall) := by
  induction h with
  | nil => rfl
  | cons bracket _ ih =>
    rw [List.map_cons, List.countP_cons, ← ih]
    cases bracket <;> rfl

/-- **Spans are found from the parentheses**: the depth that is kept with a bracket is the number of the calls
around it, whatever is opened and closed in between. -/
theorem closedIn_eq {depth : Nat} {stack : List (Bracket × Nat)} (h : Counted depth stack)
    (before previous : Option Token) (tokens : List Token) :
    closedIn before previous depth stack tokens =
      closedAmong (stack.map Prod.fst) (parens before previous tokens) := by
  induction tokens generalizing before previous depth stack with
  | nil => rw [closedIn, parens, closedAmong]
  | cons token rest ih =>
    obtain ⟨l, position⟩ := token
    cases l with
    | opening => exact ih (h.cons _) _ _
    | closing =>
      cases h with
      | nil => exact ih .nil _ _
      | @cons depth outer bracket h =>
        cases bracket with
        | call name start opening =>
          rw [parens, List.map_cons, closedAmong, ← h.eq_countP, ← ih h]
          rfl
        | group => exact ih h _ _
    | _ => exact ih h _ _

/-- Only a parenthesis that is right behind the name of a function opens a call. -/
theorem behind_eq_call {name : String} {start opening : Nat}
    (h : Bracket.behind before previous position = .call name start opening) :
    previous = some ⟨.function name, start⟩ ∧ opening = position := by
  unfold Bracket.behind at h
  split at h
  · split at h
    · cases h
    · cases h
      exact ⟨rfl, rfl⟩
  · cases h

theorem Paren.IsAmong.mono {some all : List Token} (h : ∀ t ∈ some, t ∈ all) :
    ∀ {p : Paren}, p.IsAmong some → p.IsAmong all
  | .opening (.call _ _ _) _, ⟨hplace, hlt, hname, hopening⟩ => ⟨hplace, hlt, h _ hname, h _ hopening⟩
  | .opening .group _, hopening => h _ hopening
  | .closing _, hclosing => h _ hclosing

theorem Paren.IsAmong.first_le : ∀ {p : Paren}, p.IsAmong tokens → p.first ≤ p.position
  | .opening (.call _ _ _) _, h => Nat.le_of_lt h.2.1
  | .opening .group _, _ => Nat.le_refl _
  | .closing _, _ => Nat.le_refl _

/-- What is in front of all tokens, and of the name of a function behind which they are, is in front of all
their parentheses. -/
theorem lt_first_of_mem_parens {place : Nat} (htokens : ∀ t ∈ tokens, place < t.position)
    (hprevious : ∀ name start, previous = some ⟨.function name, start⟩ → place < start) :
    ∀ p ∈ parens before previous tokens, place < p.first := by
  induction tokens generalizing before previous with
  | nil => exact fun _ hp => (List.not_mem_nil hp).elim
  | cons token tokens ih =>
    obtain ⟨l, position⟩ := token
    obtain ⟨hplace, hrest⟩ := List.forall_mem_cons.mp htokens
    have htail := @ih previous (some ⟨l, position⟩) hrest (fun name start h => by cases h; exact hplace)
    cases l with
    | opening =>
      refine List.forall_mem_cons.mpr ⟨?_, htail⟩
      cases hbehind : Bracket.behind before previous position with
      | call name start opening => exact hprevious name start (behind_eq_call hbehind).1
      | group => exact hplace
    | closing => exact List.forall_mem_cons.mpr ⟨hplace, htail⟩
    | _ => exact htail

/-- The parentheses of tokens that are one behind the other are so too. -/
theorem ordered_parens (before : Option Token)
    (h : (previous.toList ++ tokens).Pairwise fun t u => t.position < u.position) :
    Ordered (previous.toList ++ tokens) (parens before previous tokens) := by
  induction tokens generalizing before previous with
  | nil => exact ⟨fun _ hp => (List.not_mem_nil hp).elim, .nil⟩
  | cons token tokens ih =>
    obtain ⟨hfront, hall, hbetween⟩ := List.pairwise_append.mp h
    have hlt := (List.pairwise_cons.mp hall).1
    have htail := @ih (some token) previous hall
    have hmem : ∀ t ∈ (some token).toList ++ tokens, t ∈ previous.toList ++ token :: tokens :=
      fun t ht => List.mem_append_right _ ht
    have hamong : ∀ p ∈ parens previous (some token) tokens, p.IsAmong (previous.toList ++ token :: tokens) :=
      fun p hp => (htail.among p hp).mono hmem
    have htoken : token ∈ previous.toList ++ token :: tokens := hmem _ List.mem_cons_self
    have hbehind : (∀ name start, token ≠ ⟨.function name, start⟩) →
        ∀ p ∈ parens previous (some token) tokens, token.position < p.first := fun hne =>
      lt_first_of_mem_parens hlt (fun name start h => (hne name start (Option.some.inj h)).elim)
    obtain ⟨l, position⟩ := token
    cases l with
    | opening =>
      refine ⟨List.forall_mem_cons.mpr ⟨?_, hamong⟩, List.pairwise_cons.mpr
        ⟨hbehind (fun _ _ hne => by cases hne), htail.pairwise⟩⟩
      cases hbracket : Bracket.behind before previous position with
      | call name start opening =>
        obtain ⟨rfl, rfl⟩ := behind_eq_call hbracket
        exact ⟨rfl, hbetween _ List.mem_cons_self _ List.mem_cons_self,
          List.mem_append_left _ List.mem_cons_self, htoken⟩
      | group => exact htoken
    | closing =>
      exact ⟨List.forall_mem_cons.mpr ⟨htoken, hamong⟩, List.pairwise_cons.mpr
        ⟨hbehind (fun _ _ hne => by cases hne), htail.pairwise⟩⟩
    | _ => exact ⟨hamong, htail.pairwise⟩

theorem Ordered.tail (h : Ordered tokens (paren :: rest)) : Ordered tokens rest :=
  ⟨fun p hp => h.among p (List.mem_cons_of_mem _ hp), (List.pairwise_cons.mp h.pairwise).2⟩

theorem Ordered.lt_first (h : Ordered tokens (paren :: rest)) : ∀ q ∈ rest, paren.position < q.first :=
  (List.pairwise_cons.mp h.pairwise).1

theorem Ordered.lt (h : Ordered tokens (paren :: rest)) : ∀ q ∈ rest, paren.position < q.position :=
  fun q hq => (h.lt_first q hq).trans_le (h.tail.among q hq).first_le

theorem Ordered.first_le (h : Ordered tokens (paren :: rest)) : ∀ q ∈ paren :: rest, paren.first ≤ q.first :=
  have hhead := (h.among paren List.mem_cons_self).first_le
  List.forall_mem_cons.mpr ⟨Nat.le_refl _, fun q hq => hhead.trans (Nat.le_of_lt (h.lt_first q hq))⟩

theorem Ordered.position_le (h : Ordered tokens (paren :: rest)) :
    ∀ q ∈ paren :: rest, paren.position ≤ q.position :=
  List.forall_mem_cons.mpr ⟨Nat.le_refl _, fun q hq => Nat.le_of_lt (h.lt q hq)⟩

/-! ### Spans in the order in which calls are opened -/

/-- The position of the parenthesis that closes one of those that are open in front of parentheses, the
innermost but `level`; nothing if it is never closed. -/
def closingBehind : Nat → List Paren → Option Nat
  | _, [] => none
  | level, .opening _ _ :: rest => closingBehind (level + 1) rest
  | 0, .closing position :: _ => some position
  | level + 1, .closing _ :: rest => closingBehind level rest

/-- The span of a call of the given depth that is closed at the given place. -/
def Bracket.span? (depth : Nat) : Bracket → Option Nat → Option CallSpan
  | .call name start opening, some closing => some ⟨name, start, opening, closing, depth⟩
  | _, _ => none

/-- What is found of the brackets that are open in front of parentheses, innermost first: of each from the
brackets around it and from where it is closed. -/
def ofOpen {α : Type} (find : Bracket → List Bracket → Option Nat → α) (parentheses : List Paren) :
    Nat → List Bracket → List α
  | _, [] => []
  | level, bracket :: outer =>
    find bracket outer (closingBehind level parentheses) :: ofOpen find parentheses (level + 1) outer

/-- The spans of the calls that are open in front of parentheses, innermost first. -/
def spansOpen (parentheses : List Paren) (level : Nat) (stack : List Bracket) : List CallSpan :=
  (ofOpen (fun bracket outer closing => (bracket.span? (outer.countP (·.isCall)) closing).toList)
    parentheses level stack).flatten

/-- The spans of the calls that are opened among parentheses, with the brackets that are open, innermost
first; in the order in which the calls are opened. -/
def openedAmong : List Bracket → List Paren → List CallSpan
  | _, [] => []
  | stack, .opening bracket _ :: rest =>
    (bracket.span? (stack.countP (·.isCall)) (closingBehind 0 rest)).toList ++
      openedAmong (bracket :: stack) rest
  | stack, .closing _ :: rest => openedAmong stack.tail rest

/-- The parentheses that open a call and are never closed. -/
def unclosedAmong : List Paren → List Nat
  | [] => []
  | .opening bracket position :: rest =>
    if bracket.isCall && (closingBehind 0 rest).isNone then position :: unclosedAmong rest
    else unclosedAmong rest
  | .closing _ :: rest => unclosedAmong rest

/-- Behind a parenthesis that is opened, what is open is one level further out. -/
theorem ofOpen_opening {α : Type} (find : Bracket → List Bracket → Option Nat → α) (bracket : Bracket)
    (position : Nat) (rest : List Paren) : ∀ (level : Nat) (stack : List Bracket),
    ofOpen find (.opening bracket position :: rest) level stack = ofOpen find rest (level + 1) stack
  | _, [] => rfl
  | level, bracket :: outer => by
    rw [ofOpen, ofOpen, ofOpen_opening find _ _ rest (level + 1) outer]
    rfl

/-- Behind a parenthesis that is closed, what is open is one level further in. -/
theorem ofOpen_closing {α : Type} (find : Bracket → List Bracket → Option Nat → α) (position : Nat)
    (rest : List Paren) : ∀ (level : Nat) (stack : List Bracket),
    ofOpen find (.closing position :: rest) (level + 1) stack = ofOpen find rest level stack
  | _, [] => rfl
  | level, bracket :: outer => by
    rw [ofOpen, ofOpen, ofOpen_closing find _ rest (level + 1) outer]
    rfl

theorem spansOpen_opening (bracket : Bracket) (position : Nat) (rest : List Paren) (level : Nat)
    (stack : List Bracket) :
    spansOpen (.opening bracket position :: rest) level stack = spansOpen rest (level + 1) stack :=
  congrArg List.flatten (ofOpen_opening _ bracket position rest level stack)

theorem spansOpen_closing (position : Nat) (rest : List Paren) (level : Nat) (stack : List Bracket) :
    spansOpen (.closing position :: rest) (level + 1) stack = spansOpen rest level stack :=
  congrArg List.flatten (ofOpen_closing _ position rest level stack)

theorem spansOpen_cons (parentheses : List Paren) (level : Nat) (bracket : Bracket)
    (outer : List Bracket) : spansOpen parentheses level (bracket :: outer) =
      (bracket.span? (outer.countP (·.isCall)) (closingBehind level parentheses)).toList ++
        spansOpen parentheses (level + 1) outer := rfl

theorem spansOpen_nil : ∀ (level : Nat) (stack : List Bracket), spansOpen [] level stack = []
  | _, [] => rfl
  | level, .call _ _ _ :: outer => spansOpen_nil (level + 1) outer
  | level, .group :: outer => spansOpen_nil (level + 1) outer

/-- **The spans of the calls that are closed** are those of the brackets that are open, and those of the
calls that are opened. -/
theorem perm_closedAmong (stack : List Bracket) (parentheses : List Paren) :
    (closedAmong stack parentheses).Perm
      (spansOpen parentheses 0 stack ++ openedAmong stack parentheses) := by
  fun_induction closedAmong stack parentheses with
  | case1 stack =>
    rw [spansOpen_nil]
    exact .nil
  | case2 stack bracket position rest ih =>
    refine ih.trans ?_
    rw [spansOpen_opening, spansOpen_cons, openedAmong, List.append_assoc]
    exact List.perm_append_comm_assoc _ _ _
  | case3 name start opening outer position rest ih =>
    rw [spansOpen_cons, spansOpen_closing]
    exact ih.cons _
  | case4 outer position rest ih =>
    rw [spansOpen_cons, spansOpen_closing]
    exact ih
  | case5 position rest ih => exact ih

/-! ### Nesting -/

/-- Whether one call is between the parentheses of another. -/
def Within (inner outer : CallSpan) : Prop :=
  outer.opening < inner.start ∧ inner.closing < outer.closing

instance (inner outer : CallSpan) : Decidable (inner.Within outer) :=
  inferInstanceAs (Decidable (_ ∧ _))

theorem mem_span? {depth : Nat} {bracket : Bracket} {closing : Option Nat} :
    span ∈ (bracket.span? depth closing).toList ↔ bracket = .call span.name span.start span.opening ∧
      closing = some span.closing ∧ depth = span.depth := by
  obtain ⟨name, start, opening, closed, deep⟩ := span
  cases bracket <;> cases closing <;> simp [Bracket.span?, and_assoc, eq_comm]

/-- What closes a parenthesis is behind it. -/
theorem mem_of_closingBehind {closing : Nat} (h : closingBehind level parentheses = some closing) :
    .closing closing ∈ parentheses := by
  fun_induction closingBehind level parentheses with
  | case1 => cases h
  | case2 level bracket position rest ih => exact List.mem_cons_of_mem _ (ih h)
  | case3 position rest =>
    cases h
    exact List.mem_cons_self
  | case4 level position rest ih => exact List.mem_cons_of_mem _ (ih h)

/-- What is opened further in is closed first. -/
theorem closingBehind_lt (hordered : Ordered tokens parentheses) {inner outer first last : Nat}
    (h : inner < outer) (hinner : closingBehind inner parentheses = some first)
    (houter : closingBehind outer parentheses = some last) : first < last := by
  fun_induction closingBehind inner parentheses generalizing outer with
  | case1 => cases hinner
  | case2 inner bracket position rest ih => exact ih hordered.tail (Nat.succ_lt_succ h) hinner houter
  | case3 position rest =>
    cases hinner
    match outer, h with
    | outer + 1, _ => exact hordered.lt _ (mem_of_closingBehind houter)
  | case4 inner position rest ih =>
    match outer, h with
    | outer + 1, h => exact ih hordered.tail (Nat.lt_of_succ_lt_succ h) hinner houter

/-- A call with a span has its name and its parentheses among the tokens. -/
structure Stands (tokens : List Token) (span : CallSpan) : Prop where
  start_lt : span.start < span.opening
  opening_lt : span.opening < span.closing
  name_mem : ⟨.function span.name, span.start⟩ ∈ tokens
  opening_mem : ⟨.opening, span.opening⟩ ∈ tokens
  closing_mem : ⟨.closing, span.closing⟩ ∈ tokens

theorem Ordered.stands (h : Ordered tokens parentheses) (hspan : span ∈ openedAmong stack parentheses) :
    Stands tokens span ∧ ∃ p ∈ parentheses, p.first = span.start := by
  fun_induction openedAmong stack parentheses with
  | case1 => cases hspan
  | case2 stack bracket position rest ih =>
    rcases List.mem_append.mp hspan with hspan | hspan
    · obtain ⟨rfl, hclosing, -⟩ := mem_span?.mp hspan
      have hmem := mem_of_closingBehind hclosing
      obtain ⟨rfl, hlt, hname, hopening⟩ := h.among _ List.mem_cons_self
      exact ⟨⟨hlt, h.lt _ hmem, hname, hopening, h.tail.among _ hmem⟩, _, List.mem_cons_self, rfl⟩
    · obtain ⟨hstands, p, hp, hfirst⟩ := ih h.tail hspan
      exact ⟨hstands, p, List.mem_cons_of_mem _ hp, hfirst⟩
  | case3 stack position rest ih =>
    obtain ⟨hstands, p, hp, hfirst⟩ := ih h.tail hspan
    exact ⟨hstands, p, List.mem_cons_of_mem _ hp, hfirst⟩

/-- Calls start behind the parentheses in front of them. -/
theorem Ordered.lt_start (h : Ordered tokens (paren :: rest)) (hspan : span ∈ openedAmong stack rest) :
    paren.position < span.start := by
  obtain ⟨-, p, hp, hfirst⟩ := h.tail.stands hspan
  exact hfirst ▸ h.lt_first p hp

theorem unclosedAmong_sublist (parentheses : List Paren) :
    (unclosedAmong parentheses).Sublist (parentheses.map Paren.position) := by
  fun_induction unclosedAmong parentheses with
  | case1 => exact .slnil
  | case2 bracket position rest _ ih => exact ih.cons_cons _
  | case3 bracket position rest _ ih => exact ih.cons _
  | case4 position rest ih => exact ih.cons _

/-- A call that is opened behind another one starts when that one is closed, or is closed before. -/
theorem Ordered.lt_or_lt (h : Ordered tokens parentheses) {closing : Nat}
    (hclosing : closingBehind level parentheses = some closing)
    (hspan : span ∈ openedAmong stack parentheses) : closing < span.start ∨ span.closing < closing := by
  fun_induction openedAmong stack parentheses generalizing level with
  | case1 => cases hspan
  | case2 stack bracket position rest ih =>
    rcases List.mem_append.mp hspan with hspan | hspan
    · obtain ⟨-, hspan, -⟩ := mem_span?.mp hspan
      exact .inr (closingBehind_lt h.tail (Nat.succ_pos level) hspan hclosing)
    · exact ih h.tail hclosing hspan
  | case3 stack position rest ih =>
    cases level with
    | zero =>
      cases hclosing
      exact .inl (h.lt_start hspan)
    | succ level => exact ih h.tail hclosing hspan

/-- **Of two calls the later one starts behind the earlier one or is inside it.** -/
theorem pairwise_openedAmong (stack : List Bracket) (h : Ordered tokens parentheses) :
    (openedAmong stack parentheses).Pairwise fun a b =>
      a.start < b.start ∧ (a.closing < b.start ∨ b.Within a) := by
  fun_induction openedAmong stack parentheses with
  | case1 => exact .nil
  | case2 stack bracket position rest ih =>
    refine List.pairwise_append.mpr ⟨?_, ih h.tail, fun a ha b hb => ?_⟩
    · cases bracket <;> cases closingBehind 0 rest <;>
        first | exact .nil | exact List.pairwise_singleton _ _
    · obtain ⟨rfl, hclosing, -⟩ := mem_span?.mp ha
      obtain ⟨rfl, hlt, -, -⟩ := h.among _ List.mem_cons_self
      have hstart : a.opening < b.start := h.lt_start hb
      exact ⟨hlt.trans hstart, (h.tail.lt_or_lt hclosing hb).imp_right fun hclosed => ⟨hstart, hclosed⟩⟩
  | case3 stack position rest ih => exact ih h.tail

/-! ### Depth -/

/-- The number of calls among the brackets that are open in front of parentheses and not closed before the
given place. -/
def openAt (place : Nat) (parentheses : List Paren) (level : Nat) (stack : List Bracket) : Nat :=
  (ofOpen (fun bracket _ closing => (bracket.isCall && closing.all (place < ·)).toNat)
    parentheses level stack).sum

theorem openAt_opening (place : Nat) (bracket : Bracket) (position : Nat) (rest : List Paren) (level : Nat)
    (stack : List Bracket) :
    openAt place (.opening bracket position :: rest) level stack = openAt place rest (level + 1) stack :=
  congrArg List.sum (ofOpen_opening _ bracket position rest level stack)

theorem openAt_closing (place position : Nat) (rest : List Paren) (level : Nat) (stack : List Bracket) :
    openAt place (.closing position :: rest) (level + 1) stack = openAt place rest level stack :=
  congrArg List.sum (ofOpen_closing _ position rest level stack)

theorem openAt_cons (place : Nat) (parentheses : List Paren) (level : Nat) (bracket : Bracket)
    (outer : List Bracket) : openAt place parentheses level (bracket :: outer) =
      (bracket.isCall && (closingBehind level parentheses).all (place < ·)).toNat +
        openAt place parentheses (level + 1) outer := by
  rw [openAt, ofOpen, List.sum_cons]
  rfl

/-- In front of all parentheses every call is open. -/
theorem openAt_eq_countP {place : Nat} (h : ∀ p ∈ parentheses, place < p.position) :
    ∀ (level : Nat) (stack : List Bracket),
      openAt place parentheses level stack = stack.countP (·.isCall)
  | _, [] => rfl
  | level, bracket :: outer => by
    have hopen : (closingBehind level parentheses).all (place < ·) = true := by
      cases hclosing : closingBehind level parentheses with
      | none => rfl
      | some closing => exact decide_eq_true (h _ (mem_of_closingBehind hclosing))
    rw [openAt_cons, openAt_eq_countP h (level + 1) outer, hopen, Bool.and_true, List.countP_cons,
      Nat.add_comm]
    cases bracket <;> rfl

/-- What the first parenthesis adds to the calls around one that is opened behind it: the call that it opens
is open where the later one starts if that is inside it, or if it is never closed. -/
theorem Ordered.isOpen_toNat {bracket : Bracket}
    (h : Ordered tokens (.opening bracket position :: rest)) (depth : Nat)
    (hspan : span ∈ openedAmong stack rest) :
    (bracket.isCall && (closingBehind 0 rest).all (span.start < ·)).toNat =
      (bracket.span? depth (closingBehind 0 rest)).toList.countP (fun other => span.Within other) +
        (bracket.isCall && (closingBehind 0 rest).isNone).toNat := by
  cases bracket with
  | group => rfl
  | call name start opening =>
    obtain ⟨rfl, -⟩ := h.among _ List.mem_cons_self
    cases hclosing : closingBehind 0 rest with
    | none => rfl
    | some closing =>
      have hstart : opening < span.start := h.lt_start hspan
      have hlt := (h.tail.stands hspan).1
      have hwithin : span.Within ⟨name, start, opening, closing, depth⟩ ↔ span.start < closing := by
        refine ⟨fun hwithin => ?_, fun hopen => ⟨hstart, ?_⟩⟩
        · exact (hlt.start_lt.trans hlt.opening_lt).trans hwithin.2
        · exact (h.tail.lt_or_lt hclosing hspan).resolve_left (Nat.lt_asymm hopen)
      simp [Bracket.isCall, Bracket.span?, hwithin, List.countP_singleton, Bool.toNat]

/-- **The depth of a call** is the number of calls that are open in front of the parentheses and not closed
before it, of those with a span that it is inside, and of those that are opened before it and never closed. -/
theorem depth_of_mem_openedAmong (stack : List Bracket) (h : Ordered tokens parentheses)
    (hspan : span ∈ openedAmong stack parentheses) :
    span.depth = openAt span.start parentheses 0 stack +
      (openedAmong stack parentheses).countP (fun other => span.Within other) +
      (unclosedAmong parentheses).countP (fun place => place < span.start) := by
  induction parentheses generalizing stack with
  | nil => cases hspan
  | cons paren rest ih =>
    cases paren with
    | opening bracket position =>
      rcases List.mem_append.mp hspan with hhead | hbehind
      · -- No parenthesis is in front of the call.
        obtain ⟨rfl, -, hdepth⟩ := mem_span?.mp hhead
        obtain ⟨-, hlt, -⟩ := h.among _ List.mem_cons_self
        have hfirst := fun p hp => hlt.trans_le (h.position_le p hp)
        have hwithin : ∀ other ∈ openedAmong stack (.opening (.call span.name span.start span.opening)
            position :: rest), ¬ span.Within other := by
          rintro other hother ⟨hopening, -⟩
          obtain ⟨hstands, p, hp, hstart⟩ := h.stands hother
          have hle := h.first_le p hp
          exact Nat.lt_irrefl _ (hopening.trans_le (hle.trans (hstart ▸ Nat.le_of_lt hstands.start_lt)))
        have hunclosed : ∀ place ∈ unclosedAmong (.opening (.call span.name span.start span.opening)
            position :: rest), ¬ place < span.start := by
          intro place hplace
          obtain ⟨p, hp, rfl⟩ := List.mem_map.mp ((unclosedAmong_sublist _).subset hplace)
          exact Nat.lt_asymm (hfirst p hp)
        rw [openAt_eq_countP hfirst, hdepth, List.countP_eq_zero.mpr (by simpa using hwithin),
          List.countP_eq_zero.mpr (by simpa using hunclosed), Nat.add_zero]
      · rw [openAt_opening, ih (bracket :: stack) h.tail hbehind, openedAmong, List.countP_append,
          openAt_cons, h.isOpen_toNat (stack.countP (·.isCall)) hbehind, unclosedAmong]
        have hplace : position < span.start := h.lt_start hbehind
        split
        · next hunclosed =>
          rw [hunclosed, List.countP_cons, if_pos (decide_eq_true hplace), Bool.toNat_true]
          omega
        · next hclosed =>
          rw [Bool.eq_false_iff.mpr hclosed, Bool.toNat_false]
          omega
    | closing position =>
      rw [ih stack.tail h.tail hspan, unclosedAmong, openedAmong]
      cases stack with
      | nil => rfl
      | cons bracket outer =>
        have hclosed : (some position).all (fun place => decide (span.start < place)) = false :=
          decide_eq_false (Nat.lt_asymm (h.lt_start hspan))
        rw [openAt_cons, openAt_closing, closingBehind, hclosed, Bool.and_false, Bool.toNat_false,
          Nat.zero_add, List.tail_cons]

end CallSpan

/-! ### The spans of a text -/

/-- Tokens are one behind the other, each in its place. -/
theorem Scan.pairwise_ofText (text : String) : (Scan.ofText text).tokens.Pairwise fun t u =>
    t.position < u.position ∧ t.position + t.lexeme.spelling.length ≤ u.position :=
  (List.pairwise_map.mp (pairwise_tokens text)).and (tiled_pieces 0 text.toList).pairwise_tokens

theorem Scan.standsAt_ofText {text : String} {t : Token} (h : t ∈ (Scan.ofText text).tokens) :
    StandsAt text.toList t.position t.lexeme.spelling :=
  ((tiled_pieces 0 text.toList).standsAt_of_mem t h).2

/-- Of two tokens the one in front ends before the other one starts. -/
theorem Scan.length_le_of_lt {text : String} {t u : Token} (ht : t ∈ (Scan.ofText text).tokens)
    (hu : u ∈ (Scan.ofText text).tokens) (h : t.position < u.position) :
    t.position + t.lexeme.spelling.length ≤ u.position := by
  obtain ⟨i, hi, rfl⟩ := List.mem_iff_getElem.mp ht
  obtain ⟨j, hj, rfl⟩ := List.mem_iff_getElem.mp hu
  have hpairwise := List.pairwise_iff_getElem.mp (Scan.pairwise_ofText text)
  rcases Nat.lt_trichotomy i j with hlt | rfl | hgt
  · exact (hpairwise i j hi hj hlt).2
  · exact (Nat.lt_irrefl _ h).elim
  · exact (Nat.lt_asymm h (hpairwise j i hj hi hgt).1).elim

namespace CallSpan

/-- The parentheses of a text. -/
def parensOf (text : String) : List Paren :=
  parens none none (Scan.ofText text).tokens

theorem ordered_parensOf (text : String) : Ordered (Scan.ofText text).tokens (parensOf text) :=
  @ordered_parens none _ none ((Scan.pairwise_ofText text).imp And.left)

end CallSpan

/-- The spans of a text in the order in which its calls are opened. -/
theorem callSpans_eq_openedAmong (text : String) :
    callSpans text = CallSpan.openedAmong [] (CallSpan.parensOf text) := by
  rw [callSpans, CallSpan.ofTokens, CallSpan.closedIn_eq .nil]
  have hpairwise := CallSpan.pairwise_openedAmong [] (CallSpan.ordered_parensOf text)
  exact sortBy_of_perm (CallSpan.perm_closedAmong [] _) (hpairwise.imp And.left)

/-- **The spans of the calls of a text are nested**, whatever the text is. They are in the order in which they
start. In each of them the name, the opening and the closing parenthesis stand in the text, one behind the
other. Two of them are apart, or the later one is between the parentheses of the earlier one, and they share
no parenthesis. The depth of a call is the number of those around it, be it that they have a span or that they
are never closed. -/
theorem callSpans_nested (text : String) :
    ((callSpans text).Pairwise fun a b => a.start < b.start) ∧
    (∀ s ∈ callSpans text,
      s.start + s.name.length ≤ s.opening ∧ s.opening < s.closing ∧
      StandsAt text.toList s.start s.name.toList ∧
      StandsAt text.toList s.opening ['('] ∧ StandsAt text.toList s.closing [')']) ∧
    ((callSpans text).Pairwise fun a b =>
      (a.closing < b.start ∨ b.Within a) ∧ [a.opening, a.closing].Disjoint [b.opening, b.closing]) ∧
    ∀ s ∈ callSpans text,
      s.depth = (callSpans text).countP (fun other => s.Within other) +
        (CallSpan.unclosedAmong (CallSpan.parensOf text)).countP (fun place => place < s.start) := by
  have hordered := CallSpan.ordered_parensOf text
  have hpairwise := CallSpan.pairwise_openedAmong [] hordered
  rw [callSpans_eq_openedAmong]
  refine ⟨hpairwise.imp And.left, fun s hs => ?stands, ?apart, fun s hs => ?depth⟩
  case stands =>
    have hstands := (hordered.stands hs).1
    have hname := Scan.length_le_of_lt hstands.name_mem hstands.opening_mem hstands.start_lt
    exact ⟨hname, hstands.opening_lt, Scan.standsAt_ofText hstands.name_mem,
      Scan.standsAt_ofText hstands.opening_mem, Scan.standsAt_ofText hstands.closing_mem⟩
  case apart =>
    refine hpairwise.imp_of_mem fun {a b} ha hb hnested => ⟨hnested.2, ?_⟩
    have hleft := (hordered.stands ha).1
    have hright := (hordered.stands hb).1
    have hclosed := hleft.opening_lt
    have hstart := hright.start_lt
    have hopened := hright.opening_lt
    simp only [List.disjoint_cons_left, List.mem_cons, List.not_mem_nil, or_false]
    refine ⟨?_, ?_, List.disjoint_nil_left _⟩ <;>
      rcases hnested.2 with hbehind | ⟨hopening, hclosing⟩ <;> omega
  case depth =>
    have hdepth := CallSpan.depth_of_mem_openedAmong [] hordered hs
    rwa [CallSpan.openAt, CallSpan.ofOpen, List.sum_nil, Nat.zero_add] at hdepth

end Formulary
