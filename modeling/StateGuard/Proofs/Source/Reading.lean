import StateGuard.Proofs.Source.Lookahead

/-!
# Reading lexemes as terms

What the parser makes of the lexemes of each construct, given what it makes of those of the parts.  Every
statement leaves open what follows: a parser goes on with an expression as long as the next lexeme takes
hold of it, so the lexemes of an operand say nothing alone.  `Reads` is a parser that succeeds, `IsLoose`
and `IsClosing` are what may follow.

An operator applies to all that stands before it at its level, and so do a dot and a call.  Therefore the
first operand is stated with a continuation: `GoesOn` and `Heads` say that reading it and going on is
going on from its term, whatever that leads to.  `Whole` and `WholeChain` say that its lexemes are read as a
whole.

## Main results

* `Parser.Whole.goesOn`, `Parser.GoesOn.whole`, `Parser.GoesOn.isOperand`: from one level of operators to
  the next looser one.
* `Parser.GoesOn.binary`, `Parser.GoesOn.isPattern`: an operator of a level goes on at the same level.
* `Parser.Heads.memberAccess`, `Parser.Heads.invocation`, `Parser.Heads.conditionalAccess`: chains grow at
  their end, and a conditional access takes all that follows.
* `Parser.reads_arguments`, `Parser.reads_lambdaHead`: lists up to a closing parenthesis.
-/

namespace StateGuard

namespace Parser

/-! ## Attempts that succeed -/

section Reads

variable {l n : Nat} {α β : Type} {P : α → Prop} {Q : β → Prop} {rest mid : List Lexeme}

/-- The attempt reads a value with some property and leaves some lexemes. -/
def Reads (attempt : Attempt (Parsed n α)) (P : α → Prop) (rest : List Lexeme) : Prop :=
  ∃ r, attempt = .ok r ∧ P r.value ∧ r.rest = rest

theorem Reads.done {value : α} {fits : rest.length < n} (h : P value) :
    Reads (.ok ⟨value, rest, fits⟩) P rest := ⟨_, rfl, h, rfl⟩

theorem Reads.bind {first : Attempt (Parsed n α)} {next : Parsed n α → Attempt (Parsed l β)}
    (h : Reads first P mid)
    (hNext : ∀ value fits, P value → Reads (next ⟨value, mid, fits⟩) Q rest) :
    Reads (first >>= next) Q rest := by
  obtain ⟨⟨value, _, fits⟩, hFirst, hValue, rfl⟩ := h
  rw [hFirst]
  exact hNext value fits hValue

theorem reads_expect (which : Symbol) (rest : List Lexeme) :
    Reads (expect which (.symbol which :: rest)) (fun _ => True) rest := by
  rw [expect, if_pos rfl]
  exact Reads.done trivial

theorem reads_expectWord {name : String} (what : Wanted) (hName : isName name = true)
    (rest : List Lexeme) : Reads (expectWord what (.word name :: rest)) (· = name) rest := by
  simp only [isName, Bool.and_eq_true, Bool.not_eq_true'] at hName
  rw [expectWord, if_neg (by simp [hName.2])]
  exact Reads.done rfl

theorem accept_cons (t : Lexeme) (rest : List Lexeme) :
    accept t (t :: rest) = some ⟨(), rest, Nat.lt_succ_self _⟩ := by
  simp [accept]

theorem accept_of_ne {t : Lexeme} {ts : List Lexeme} (h : ts.head? ≠ some t) :
    accept t ts = none := by
  cases ts with
  | nil => rfl
  | cons u ts => simpa [accept] using h

end Reads

/-! ## What goes on with an expression -/

/-- How tightly a lexeme takes hold of the expression before it. -/
def grip (t : Lexeme) : Nat :=
  match t.binaryOp? with
  | some op => op.level + 1
  | none =>
    if t = .word "is" then testLevel + 1
    else if t = .symbol .dot ∨ t = .symbol .leftParen ∨ t = .symbol .questionDot then levels + 1
    else 0

/-- What follows takes no tighter hold of an expression than a level. -/
def IsLoose (level : Nat) (rest : List Lexeme) : Prop := ∀ t, rest.head? = some t → grip t ≤ level

/-- What follows ends an expression. -/
def IsClosing (rest : List Lexeme) : Prop :=
  ∀ t, rest.head? = some t → t ∈ [Lexeme.symbol .rightParen, .symbol .comma, .symbol .colon,
    .symbol .semicolon]

theorem IsLoose.mono {level level' : Nat} {rest : List Lexeme} (h : IsLoose level rest)
    (hLe : level ≤ level') : IsLoose level' rest := fun t ht => Nat.le_trans (h t ht) hLe

theorem isLoose_cons {level : Nat} {t : Lexeme} {rest : List Lexeme} (h : grip t ≤ level) :
    IsLoose level (t :: rest) := by
  intro u hu
  obtain rfl := Option.some.inj hu
  exact h

theorem isClosing_cons {t : Lexeme} {rest : List Lexeme}
    (h : t ∈ [Lexeme.symbol .rightParen, .symbol .comma, .symbol .colon, .symbol .semicolon]) :
    IsClosing (t :: rest) := by
  intro u hu
  obtain rfl := Option.some.inj hu
  exact h

theorem IsClosing.isLoose {rest : List Lexeme} (h : IsClosing rest) : IsLoose 0 rest := by
  intro t ht
  have hMem := h t ht
  simp only [List.mem_cons, List.not_mem_nil, or_false] at hMem
  rcases hMem with rfl | rfl | rfl | rfl <;> decide

theorem IsClosing.head?_ne {rest : List Lexeme} (h : IsClosing rest) {t : Lexeme}
    (ht : t ∉ [Lexeme.symbol .rightParen, .symbol .comma, .symbol .colon, .symbol .semicolon]) :
    rest.head? ≠ some t := fun hHead => ht (h t hHead)

theorem grip_sign (op : BinaryOp) : grip (.symbol op.sign) = op.level + 1 := by
  cases op <;> rfl

theorem operator?_sign (op : BinaryOp) : operator? op.level (.symbol op.sign) = some op := by
  cases op <;> rfl

/-- An operator that takes a looser hold than its level is none of it. -/
theorem operator?_eq_none {level : Nat} {t : Lexeme} (h : grip t ≤ level) :
    operator? level t = none := by
  unfold operator?
  unfold grip at h
  split at h
  · next op hOp =>
      rw [hOp, Option.filter_some, if_neg]
      simp only [beq_iff_eq]
      omega
  · next hOp => rw [hOp, Option.filter_none]

variable {resolve : String → String}

/-! ## Chains -/

section Chains

variable {before : Nat} {head : Term} {ts rest out : List Lexeme} {Q : Term → Prop}

/-- Read what a chain of member accesses and calls begins with. -/
def chainHead (resolve : String → String) (slot : Slot) (ts : List Lexeme) :
    Attempt (Parsed ts.length Term) :=
  if slot = .bound then do
    let ⟨member, rest, h⟩ ← expectWord .memberName ts
    return ⟨spanning ts.length (.memberBinding member) rest, rest, h⟩
  else primary resolve ts

/-- The same result under a looser bound. -/
def Parsed.widen {n m : Nat} {α : Type} (h : n ≤ m) (r : Parsed n α) : Parsed m α :=
  ⟨r.value, r.rest, Nat.lt_of_lt_of_le r.fits h⟩

/-- Read a chain of member accesses and calls. -/
def chained (resolve : String → String) (slot : Slot) (ts : List Lexeme) :
    Attempt (Parsed ts.length Term) := do
  let ⟨head, rest, h⟩ ← chainHead resolve slot ts
  return (← chain resolve ts.length head rest).widen h

theorem unary_eq_chained {t : Lexeme} (hHead : ts.head? = some t) (h : t.opensPrimary = true) :
    unary resolve ts = chained resolve .free ts := by
  rw [unary.eq_def]
  split
  · obtain rfl := Option.some.inj hHead
    exact absurd h (by decide)
  · obtain rfl := Option.some.inj hHead
    exact absurd h (by decide)
  · obtain rfl := Option.some.inj hHead
    exact absurd h (by decide)
  · rfl

/-- A chain ends where nothing goes on with it. -/
theorem chain_of_isLoose (h : IsLoose levels rest) :
    chain resolve before head rest = .ok ⟨head, rest, Nat.lt_succ_self _⟩ := by
  have hNot : ∀ t ts, levels < grip t → rest ≠ t :: ts := by
    rintro t ts ht rfl
    exact Nat.not_lt.2 (h t rfl) ht
  rw [chain.eq_def]
  split
  · exact absurd rfl (hNot _ _ (by decide))
  · exact absurd rfl (hNot _ _ (by decide))
  · exact absurd rfl (hNot _ _ (by decide))
  · rfl

theorem reads_chain_dot {member : String} (hMember : isName member = true)
    (h : Reads (chain resolve before (spanning before (.memberAccess head member) rest) rest) Q out) :
    Reads (chain resolve before head (.symbol .dot :: .word member :: rest)) Q out := by
  rw [chain.eq_def]
  refine (reads_expectWord .memberName hMember rest).bind fun value _ hValue => ?_
  subst hValue
  exact h.bind fun whole _ hWhole => Reads.done hWhole

theorem reads_chain_call {P : List (Argument Term) → Prop} (hArgs : Reads (arguments resolve ts) P rest)
    (h : ∀ args, P args →
      Reads (chain resolve before (spanning before (.invocation head args) rest) rest) Q out) :
    Reads (chain resolve before head (.symbol .leftParen :: ts)) Q out := by
  rw [chain.eq_def]
  refine hArgs.bind fun args _ hValue => ?_
  exact (h args hValue).bind fun whole _ hWhole => Reads.done hWhole

theorem reads_chain_questionDot {P : Term → Prop} (hInner : Reads (chained resolve .bound ts) P rest)
    (h : ∀ inner, P inner → Q (spanning before (.conditionalAccess head inner) rest)) :
    Reads (chain resolve before head (.symbol .questionDot :: ts)) Q rest := by
  obtain ⟨r, hRead, hValue, rfl⟩ := hInner
  rw [chain.eq_def]
  rw [chained, chainHead, if_pos rfl] at hRead
  cases hWord : expectWord .memberName ts with
  | error e => simp [hWord, bind, Except.bind] at hRead
  | ok word =>
      simp only [hWord, bind, Except.bind, pure, Except.pure] at hRead ⊢
      split at hRead
      · simp at hRead
      · obtain rfl := Except.ok.inj hRead
        exact Reads.done (h _ hValue)

/-! ### Chains that are read as terms -/

variable {slot : Slot} {ls ms : List Lexeme} {t u : Term}

/-- Reading the lexemes as the head of a chain and going on is going on from the term. -/
def Heads (resolve : String → String) (slot : Slot) (ls : List Lexeme) (t : Term) : Prop :=
  ∀ rest Q out,
    (∀ before head, head.bare = t → Reads (chain resolve before head rest) Q out) →
      Reads (chained resolve slot (ls ++ rest)) Q out

/-- The lexemes are a chain that is read as the term. -/
def WholeChain (resolve : String → String) (slot : Slot) (ls : List Lexeme) (t : Term) : Prop :=
  ∀ rest, IsLoose levels rest → Reads (chained resolve slot (ls ++ rest)) (·.bare = t) rest

theorem Heads.wholeChain (h : Heads resolve slot ls t) : WholeChain resolve slot ls t := by
  intro rest hRest
  refine h rest _ _ fun before head hHead => ?_
  rw [chain_of_isLoose hRest]
  exact Reads.done hHead

theorem heads_of_chainHead
    (h : ∀ rest, Reads (chainHead resolve slot (ls ++ rest)) (·.bare = t) rest) :
    Heads resolve slot ls t := by
  intro rest Q out hNext
  exact (h rest).bind fun head _ hHead => (hNext _ head hHead).bind fun _ _ hWhole => Reads.done hWhole

theorem Heads.memberAccess {member : String} (h : Heads resolve slot ls t)
    (hMember : isName member = true) :
    Heads resolve slot (ls ++ [.symbol .dot, .word member]) ⟨.memberAccess t member, .nowhere⟩ := by
  intro rest Q out hNext
  rw [List.append_assoc]
  refine h _ _ _ fun before head hHead => ?_
  refine reads_chain_dot hMember (hNext _ _ ?_)
  rw [Term.bare_eq, ← hHead]
  rfl

theorem Heads.conditionalAccess (h : Heads resolve slot ls t) (hRest : WholeChain resolve .bound ms u) :
    WholeChain resolve slot (ls ++ .symbol .questionDot :: ms) ⟨.conditionalAccess t u, .nowhere⟩ := by
  intro rest hLoose
  rw [List.append_assoc]
  refine h _ _ _ fun before head hHead => ?_
  refine reads_chain_questionDot (hRest rest hLoose) fun inner hInner => ?_
  rw [Term.bare_eq, ← hHead, ← hInner]
  rfl

end Chains

/-! ## Operations -/

section Operations

variable {level rank : Nat} {ls ms rest : List Lexeme} {t u : Term}

/-- The lexemes are read as the term by the operators of a level and tighter ones. -/
def Whole (resolve : String → String) (level : Nat) (ls : List Lexeme) (t : Term) : Prop :=
  ∀ rest, IsLoose level rest → Reads (operation resolve level (ls ++ rest)) (·.bare = t) rest

/-- Reading the lexemes and going on at a level is going on from the term. -/
def GoesOn (resolve : String → String) (level : Nat) (ls : List Lexeme) (t : Term) : Prop :=
  ∀ rest Q out, IsLoose (level + 1) rest →
    (∀ before left, left.bare = t → Reads (operationTail resolve level before left rest) Q out) →
      Reads (operation resolve level (ls ++ rest)) Q out

/-- The operators of a level end where nothing goes on with them. -/
theorem operationTail_of_isLoose {before : Nat} {left : Term} (h : IsLoose level rest) :
    operationTail resolve level before left rest = .ok ⟨left, rest, Nat.lt_succ_self _⟩ := by
  cases rest with
  | nil => rw [operationTail.eq_def]
  | cons t rest =>
      have hGrip := h t rfl
      have hTest : ¬ (level = testLevel ∧ t = .word "is") := by
        rintro ⟨rfl, rfl⟩
        exact absurd hGrip (by decide)
      rw [operationTail.eq_def]
      simp only [operator?_eq_none hGrip, if_neg hTest]
      rfl

theorem Whole.goesOn (hLevel : level < levels) (h : Whole resolve (level + 1) ls t) :
    GoesOn resolve level ls t := by
  intro rest Q out hRest hNext
  rw [operation.eq_def, if_pos hLevel]
  refine (h rest hRest).bind fun left _ hLeft => ?_
  exact (hNext _ left hLeft).bind fun _ _ hWhole => Reads.done hWhole

theorem GoesOn.whole (h : GoesOn resolve level ls t) : Whole resolve level ls t := by
  intro rest hRest
  refine h rest _ _ (hRest.mono (by omega)) fun before left hLeft => ?_
  rw [operationTail_of_isLoose hRest]
  exact Reads.done hLeft

/-- The lexemes are read as a term that holds together up to some rank. -/
structure IsOperand (resolve : String → String) (rank : Nat) (ls : List Lexeme) (t : Term) : Prop where
  goesOn : ∀ level, level < levels → level < rank → GoesOn resolve level ls t
  whole : levels < rank → Whole resolve levels ls t

theorem isOperand_zero : IsOperand resolve 0 ls t :=
  ⟨fun _ _ h => absurd h (Nat.not_lt_zero _), fun h => absurd h (Nat.not_lt_zero _)⟩

theorem IsOperand.whole_of_lt (h : IsOperand resolve rank ls t) (hLevel : level ≤ levels)
    (hRank : level < rank) : Whole resolve level ls t := by
  rcases Nat.lt_or_eq_of_le hLevel with hLt | rfl
  · exact (h.goesOn level hLt hRank).whole
  · exact h.whole hRank

/-- What is read at a level is read at every looser one. -/
theorem GoesOn.isOperand (hLevel : level < levels) (h : GoesOn resolve level ls t) :
    IsOperand resolve (level + 1) ls t := by
  refine ⟨fun lower _ hLower => ?_, fun hRank => absurd hRank (by omega)⟩
  -- From the level itself downwards, one level after the other.
  induction hDown : level - lower generalizing lower with
  | zero =>
      obtain rfl : lower = level := by omega
      exact h
  | succ n ih => exact (ih (lower + 1) (by omega) (by omega) (by omega)).whole.goesOn (by omega)

theorem Whole.isOperand (h : Whole resolve levels ls t) : IsOperand resolve rank ls t := by
  have hTop : GoesOn resolve (levels - 1) ls t := Whole.goesOn (by decide) h
  have hAll := hTop.isOperand (by decide)
  exact ⟨fun level hLevel _ => hAll.goesOn level hLevel (by omega), fun _ => h⟩

theorem GoesOn.binary {op : BinaryOp} (hLeft : GoesOn resolve op.level ls t)
    (hRight : Whole resolve (op.level + 1) ms u) :
    GoesOn resolve op.level (ls ++ .symbol op.sign :: ms) ⟨.binary op t u, .nowhere⟩ := by
  intro rest Q out hRest hNext
  rw [List.append_assoc]
  refine hLeft _ _ _ (isLoose_cons (grip_sign op).le) fun before left hBare => ?_
  rw [List.cons_append, operationTail.eq_def]
  simp only [operator?_sign]
  refine (hRight rest hRest).bind fun right _ hBare' => ?_
  refine (hNext before _ ?_).bind fun _ _ hWhole => Reads.done hWhole
  rw [Term.bare_eq, ← hBare, ← hBare']
  rfl

theorem reads_pattern {test : Pattern} (h : test.isReadable = true) (rest : List Lexeme) :
    Reads (pattern (test.lexemes ++ rest)) (· = test) rest := by
  cases test with
  | null => exact Reads.done rfl
  | notNull => exact Reads.done rfl
  | literal value =>
      cases value with
      | bool value => cases value <;> exact Reads.done rfl
      | null => simp [Pattern.isReadable] at h
      | int | str => exact Reads.done rfl

theorem GoesOn.isPattern {test : Pattern} (h : GoesOn resolve testLevel ls t)
    (hTest : test.isReadable = true) :
    GoesOn resolve testLevel (ls ++ .word "is" :: test.lexemes) ⟨.isPattern t test, .nowhere⟩ := by
  intro rest Q out hRest hNext
  rw [List.append_assoc]
  refine h _ _ _ (isLoose_cons (by decide)) fun before left hBare => ?_
  have hOperator : operator? testLevel (.word "is") = none := by decide
  rw [List.cons_append, operationTail.eq_def]
  simp only [hOperator, true_and, if_true]
  refine (reads_pattern hTest rest).bind fun test' _ hEq => ?_
  subst hEq
  refine (hNext before _ ?_).bind fun _ _ hWhole => Reads.done hWhole
  rw [Term.bare_eq, ← hBare]
  rfl

theorem operation_levels (ts : List Lexeme) : operation resolve levels ts = unary resolve ts := by
  rw [operation.eq_def, if_neg (Nat.lt_irrefl _)]

theorem WholeChain.whole (h : WholeChain resolve .free ls t)
    (hHead : ∃ first, ls.head? = some first ∧ first.opensPrimary = true) :
    Whole resolve levels ls t := by
  intro rest hRest
  obtain ⟨first, hFirst, hPrimary⟩ := hHead
  rw [operation_levels, unary_eq_chained (by simp [hFirst]) hPrimary]
  exact h rest hRest

theorem Whole.unary {op : UnaryOp} (h : Whole resolve levels ls t) :
    Whole resolve levels (.symbol op.sign :: ls) ⟨.unary op t, .nowhere⟩ := by
  intro rest hRest
  have hOperand := h rest hRest
  rw [operation_levels] at hOperand
  rw [operation_levels, List.cons_append, unary.eq_def]
  cases op <;>
  · refine hOperand.bind fun operand _ hBare => Reads.done ?_
    rw [Term.bare_eq, ← hBare]
    rfl

theorem Whole.await (h : Whole resolve levels ls t) :
    Whole resolve levels (.word "await" :: ls) ⟨.await t, .nowhere⟩ := by
  intro rest hRest
  have hOperand := h rest hRest
  rw [operation_levels] at hOperand
  rw [operation_levels, List.cons_append, unary.eq_def]
  refine hOperand.bind fun operand _ hBare => Reads.done ?_
  rw [Term.bare_eq, ← hBare]
  rfl

end Operations

/-! ## Names, literals and parentheses -/

section Primaries

variable {ls ms ns rest : List Lexeme} {t u v : Term}

/-- The lexemes are read as the term where an expression may stand. -/
def IsRead (resolve : String → String) (ls : List Lexeme) (t : Term) : Prop :=
  ∀ rest, IsClosing rest → Reads (expression resolve (ls ++ rest)) (·.bare = t) rest

theorem atom_of_isName {name : String} (h : isName name = true) :
    atom (.word name) = .ok (.identifier name) := by
  have hWord : isKeyword name = false := by simp_all [isName]
  rw [atom, hWord]
  · rfl
  · exact ne_of_isKeyword h "this" (by decide)
  · exact ne_of_isKeyword h "true" (by decide)
  · exact ne_of_isKeyword h "false" (by decide)
  · exact ne_of_isKeyword h "null" (by decide)

theorem atom_lexeme (value : Literal) : atom value.lexeme = .ok (.literal value) := by
  cases value with
  | bool value => cases value <;> rfl
  | null | int | str => rfl

theorem heads_of_atom {first : Lexeme} {node : Node Term} (h : atom first = .ok node) :
    Heads resolve .free [first] ⟨node.map Term.bare, .nowhere⟩ := by
  refine heads_of_chainHead fun rest => ?_
  have hSymbol : ∀ which, first ≠ .symbol which := by
    rintro which rfl
    simp [atom] at h
  rw [chainHead, if_neg (by decide), List.singleton_append, primary]
  · simp only [h]
    exact Reads.done (Term.bare_eq _)
  · exact hSymbol _

theorem heads_memberBinding {member : String} (h : isName member = true) :
    Heads resolve .bound [.word member] ⟨.memberBinding member, .nowhere⟩ := by
  refine heads_of_chainHead fun rest => ?_
  rw [chainHead, if_pos rfl]
  refine (reads_expectWord .memberName h rest).bind fun _ _ hValue => Reads.done ?_
  rw [Term.bare_eq, hValue]
  rfl

theorem IsRead.heads_parenthesized (h : IsRead resolve ls t) :
    Heads resolve .free (.symbol .leftParen :: (ls ++ [.symbol .rightParen]))
      ⟨.parenthesized t, .nowhere⟩ := by
  refine heads_of_chainHead fun rest => ?_
  rw [chainHead, if_neg (by decide), List.cons_append, List.append_assoc, primary]
  refine (h _ (isClosing_cons (by decide))).bind fun inner _ hInner => ?_
  refine (reads_expect .rightParen rest).bind fun _ _ _ => Reads.done ?_
  rw [Term.bare_eq, ← hInner]
  rfl

end Primaries

/-! ## Arguments -/

section Arguments

variable {ls : List Lexeme} {t : Term}

/-- The lexemes are read as the term where the value of an argument may stand, and cannot be mistaken
for the end of the arguments or for a name before a value. -/
structure IsArgument (resolve : String → String) (ls : List Lexeme) (t : Term) : Prop where
  reads : ∀ rest, IsClosing rest → Reads (argument resolve (ls ++ rest)) (·.bare = t) rest
  begins : ∃ first more, ls = first :: more ∧ first ≠ .symbol .rightParen ∧
    ∀ next, more.head? = some next → next ≠ .symbol .colon

theorem isArgument_outVariable {name : String} (h : isName name = true) :
    IsArgument resolve [.word "out", .word "var", .word name]
      ⟨.outVariable name none, .nowhere⟩ := by
  refine ⟨fun rest _ => ?_, _, _, rfl, by simp, by simp⟩
  have hTarget : Reads (outVariable resolve (.word "var" :: .word name :: rest))
      (·.bare = ⟨.outVariable name none, .nowhere⟩) rest := by
    refine (reads_expectWord .outVariableName h rest).bind fun _ _ hValue => Reads.done ?_
    rw [Term.bare_eq, hValue]
    rfl
  rw [List.cons_append, argument]
  exact hTarget.bind fun _ _ hBare => Reads.done hBare

variable {ι : Type} {lexemes : ι → List Lexeme} {term : ι → Term} {a : Argument ι}

theorem argumentName_append (h : IsArgument resolve (lexemes a.value) t) (after : List Lexeme)
    (hAfter : after.head? ≠ some (.symbol .colon)) :
    ∃ fits, argumentName ((a.map lexemes).lexemes ++ after) =
      ⟨a.name, lexemes a.value ++ after, fits⟩ := by
  obtain ⟨name?, i⟩ := a
  cases name? with
  | some name => exact ⟨_, rfl⟩
  | none =>
      obtain ⟨first, more, hLexemes, -, hColon⟩ := h.begins
      refine ⟨Nat.lt_succ_self _, ?_⟩
      change argumentName (lexemes i ++ after) = _
      rw [argumentName]
      · rfl
      · intro name rest hEq
        rw [hLexemes] at hEq
        cases more with
        | nil =>
            obtain ⟨-, rfl⟩ := List.cons.inj hEq
            exact hAfter rfl
        | cons next more =>
            obtain ⟨-, hEq⟩ := List.cons.inj hEq
            exact hColon next rfl (List.cons.inj hEq).1

theorem ne_rightParen_of_isArgument (h : IsArgument resolve (lexemes a.value) t)
    {after : List Lexeme} (rest : List Lexeme) :
    (a.map lexemes).lexemes ++ after ≠ .symbol .rightParen :: rest := by
  obtain ⟨name?, i⟩ := a
  obtain ⟨first, more, hLexemes, hFirst, -⟩ := h.begins
  intro hEq
  cases name? with
  | some name => simp [Argument.map, Argument.lexemes] at hEq
  | none =>
      change lexemes i ++ after = _ at hEq
      rw [hLexemes] at hEq
      exact hFirst (List.cons.inj hEq).1

/-- **The arguments of a call are read one after the other** up to the closing parenthesis. -/
theorem reads_arguments {args : List (Argument ι)}
    (hArgs : ∀ a ∈ args, IsArgument resolve (lexemes a.value) (term a.value)) (rest : List Lexeme) :
    Reads (arguments resolve
        (separated (args.map fun a => (a.map lexemes).lexemes) ++ .symbol .rightParen :: rest))
      (·.map (·.map Term.bare) = args.map (·.map term)) rest := by
  induction args with
  | nil =>
      rw [List.map_nil, separated_nil, List.nil_append, arguments]
      exact Reads.done rfl
  | cons a args ih =>
      have hFirst := hArgs a List.mem_cons_self
      have hOthers := ih fun b hb => hArgs b (List.mem_cons_of_mem a hb)
      cases args with
      | nil =>
          obtain ⟨_, hName⟩ := argumentName_append hFirst (.symbol .rightParen :: rest) (by simp)
          rw [List.map_singleton, separated_singleton, arguments]
          · rw [hName]
            refine (hFirst.reads _ (isClosing_cons (by decide))).bind fun value _ hValue => ?_
            dsimp only
            rw [accept_of_ne (by simp)]
            refine (reads_expect .rightParen rest).bind fun _ _ _ => Reads.done ?_
            simp [Argument.map, hValue]
          · exact ne_rightParen_of_isArgument hFirst
      | cons b args =>
          rw [separated_map_cons_cons, List.append_assoc, List.cons_append]
          generalize separated _ ++ .symbol .rightParen :: rest = more at hOthers ⊢
          obtain ⟨_, hName⟩ := argumentName_append hFirst (.symbol .comma :: more) (by simp)
          rw [arguments]
          · rw [hName]
            refine (hFirst.reads _ (isClosing_cons (by decide))).bind fun value _ hValue => ?_
            dsimp only
            rw [accept_cons]
            refine hOthers.bind fun values _ hValues => Reads.done ?_
            rw [List.map_cons, List.map_cons, hValues, Argument.map, hValue]
            rfl
          · exact ne_rightParen_of_isArgument hFirst

theorem Heads.invocation {slot : Slot} (h : Heads resolve slot ls t) {args : List (Argument ι)}
    (hArgs : ∀ a ∈ args, IsArgument resolve (lexemes a.value) (term a.value)) :
    Heads resolve slot (ls ++ .symbol .leftParen ::
        (separated ((args.map (·.map lexemes)).map (·.lexemes)) ++ [.symbol .rightParen]))
      ⟨.invocation t (args.map (·.map term)), .nowhere⟩ := by
  intro rest Q out hNext
  rw [List.map_map, List.append_assoc, List.cons_append, List.append_assoc]
  refine h _ _ _ fun before head hHead => ?_
  refine reads_chain_call (reads_arguments hArgs rest) fun values hValues => hNext _ _ ?_
  rw [Term.bare_eq, ← hHead, ← hValues]
  exact congrArg (Term.mk · _) (Node.map_invocation ..)

end Arguments

/-! ## Lambdas -/

section Lambdas

variable {ls : List Lexeme} {t : Term}

/-- The lexemes are those of a lambda parameter without a type. -/
def IsParameter (ls : List Lexeme) (t : Term) : Prop :=
  ∃ name, isName name = true ∧ ls = [.word name] ∧ t = ⟨.parameter name none, .nowhere⟩

theorem reads_parameterType (first : Lexeme) {next : Symbol}
    (hNext : next = .comma ∨ next = .rightParen) (rest : List Lexeme) :
    Reads (parameterType resolve (first :: .symbol next :: rest)) (· = none)
      (first :: .symbol next :: rest) := by
  rcases hNext with rfl | rfl <;> exact Reads.done rfl

/-- **The parameters of a lambda are read one after the other** up to the closing parenthesis. -/
theorem reads_lambdaParameters {ι : Type} {lexemes : ι → List Lexeme} {term : ι → Term}
    {params : List ι} (hParams : ∀ p ∈ params, IsParameter (lexemes p) (term p))
    (rest : List Lexeme) :
    Reads (lambdaParameters resolve
        (separated (params.map lexemes) ++ .symbol .rightParen :: rest))
      (·.map Term.bare = params.map term) rest := by
  induction params with
  | nil =>
      rw [List.map_nil, separated_nil, List.nil_append, lambdaParameters]
      exact Reads.done rfl
  | cons p params ih =>
      obtain ⟨name, hName, hLexemes, hTerm⟩ := hParams p List.mem_cons_self
      have hOthers := ih fun q hq => hParams q (List.mem_cons_of_mem p hq)
      cases params with
      | nil =>
          rw [List.map_singleton, separated_singleton, hLexemes, List.singleton_append,
            lambdaParameters]
          · refine (reads_parameterType _ (.inr rfl) _).bind fun _ _ hType => ?_
            refine (reads_expectWord .lambdaParameter hName _).bind fun _ _ hValue => ?_
            dsimp only
            rw [accept_of_ne (by simp)]
            refine (reads_expect .rightParen rest).bind fun _ _ _ => Reads.done ?_
            rw [List.map_singleton, List.map_singleton, hTerm, hValue, hType, Term.bare_eq]
            rfl
          · simp
      | cons q params =>
          rw [separated_map_cons_cons, List.append_assoc, List.cons_append, hLexemes]
          generalize separated _ ++ .symbol .rightParen :: rest = more at hOthers ⊢
          rw [List.singleton_append, lambdaParameters]
          · refine (reads_parameterType _ (.inl rfl) _).bind fun _ _ hType => ?_
            refine (reads_expectWord .lambdaParameter hName _).bind fun _ _ hValue => ?_
            dsimp only
            rw [accept_cons]
            refine hOthers.bind fun _ _ hMore => Reads.done ?_
            rw [List.map_cons, List.map_cons, hMore, hTerm, hValue, hType, Term.bare_eq]
            rfl
          · simp

theorem reads_lambdaHead {ι : Type} {lexemes : ι → List Lexeme} {term : ι → Term}
    {params : List ι} (hParams : ∀ p ∈ params, IsParameter (lexemes p) (term p))
    (rest : List Lexeme) :
    Reads (lambdaHead resolve (parameterLexemes (params.map lexemes) ++ rest))
      (·.map Term.bare = params.map term) rest := by
  by_cases hOne : ∃ row, params.map lexemes = [row]
  · obtain ⟨row, hRow⟩ := hOne
    obtain ⟨p, rfl, rfl⟩ := List.map_eq_singleton_iff.1 hRow
    obtain ⟨name, hName, hLexemes, hTerm⟩ := hParams p List.mem_cons_self
    rw [hRow, parameterLexemes, hLexemes, List.singleton_append, lambdaHead]
    · refine (reads_expectWord .lambdaParameter hName rest).bind fun _ _ hValue => Reads.done ?_
      rw [List.map_singleton, List.map_singleton, hTerm, hValue, Term.bare_eq]
      rfl
    · simp
  · rw [parameterLexemes]
    · rw [List.cons_append, List.append_assoc, lambdaHead]
      exact (reads_lambdaParameters hParams rest).bind fun _ _ hValue => Reads.done hValue
    · exact fun row hRow => hOne ⟨row, hRow⟩

theorem skipAsync_append (isAsync : Bool) (h : ls.head? ≠ some (.word "async")) :
    ∃ fits, skipAsync ((if isAsync then [.word "async"] else []) ++ ls) = ⟨isAsync, ls, fits⟩ := by
  cases isAsync with
  | true => exact ⟨_, rfl⟩
  | false =>
      refine ⟨Nat.lt_succ_self _, ?_⟩
      change skipAsync ls = _
      rw [skipAsync]
      rintro rest rfl
      exact h rfl

end Lambdas

/-! ## Expressions -/

section Expressions

variable {ls ms ns : List Lexeme} {t u v : Term}

theorem Whole.reads_conditional (h : Whole resolve 0 ls t) {rest : List Lexeme} (hRest : IsClosing rest) :
    Reads (conditional resolve (ls ++ rest)) (·.bare = t) rest := by
  rw [conditional]
  refine (h rest hRest.isLoose).bind fun _ _ hBare => ?_
  dsimp only
  rw [accept_of_ne (hRest.head?_ne (by decide))]
  exact Reads.done hBare

theorem Whole.reads_conditional_of_isRead (h : Whole resolve 0 ls t) (hTrue : IsRead resolve ms u)
    (hFalse : IsRead resolve ns v) {rest : List Lexeme} (hRest : IsClosing rest) :
    Reads (conditional resolve
        (ls ++ .symbol .question :: (ms ++ .symbol .colon :: ns) ++ rest))
      (·.bare = ⟨.conditional t u v, .nowhere⟩) rest := by
  rw [List.append_assoc, List.cons_append, List.append_assoc, List.cons_append, conditional]
  refine (h _ (isLoose_cons (by decide))).bind fun _ _ hCondition => ?_
  dsimp only
  rw [accept_cons]
  refine (hTrue _ (isClosing_cons (by decide))).bind fun _ _ hTrue => ?_
  refine (reads_expect .colon _).bind fun _ _ _ => ?_
  refine (hFalse rest hRest).bind fun _ _ hFalse => Reads.done ?_
  rw [Term.bare_eq, ← hCondition, ← hTrue, ← hFalse]
  rfl

theorem IsRead.reads_lambda (hBody : IsRead resolve ls t) {ι : Type} {lexemes : ι → List Lexeme}
    {term : ι → Term} {params : List ι} (hParams : ∀ p ∈ params, IsParameter (lexemes p) (term p))
    (isAsync : Bool) {rest : List Lexeme} (hRest : IsClosing rest)
    (hHead : (parameterLexemes (params.map lexemes) ++ .symbol .arrow :: (ls ++ rest)).head? ≠
      some (.word "async"))
    (hBrace : (ls ++ rest).head? ≠ some (.symbol .leftBrace)) :
    Reads (lambda resolve ((if isAsync then [.word "async"] else []) ++
        (parameterLexemes (params.map lexemes) ++ .symbol .arrow :: ls) ++ rest))
      (·.bare = ⟨.lambda (params.map term) t isAsync, .nowhere⟩) rest := by
  obtain ⟨_, hAsync⟩ := skipAsync_append isAsync hHead
  rw [List.append_assoc, List.append_assoc, List.cons_append, lambda, hAsync]
  refine (reads_lambdaHead hParams _).bind fun values _ hValues => ?_
  refine (reads_expect .arrow _).bind fun _ _ _ => ?_
  dsimp only
  rw [if_neg hBrace]
  refine (hBody rest hRest).bind fun body _ hBare => Reads.done ?_
  rw [Term.bare_eq, ← hValues, ← hBare]
  exact congrArg (Term.mk · _) (Node.map_lambda ..)

end Expressions

end Parser

end StateGuard
