import StateGuard.Proofs.Source.Suffixes

/-!
# Trying to read a declaration

A statement may begin like a declaration and be an expression: only after a type and a name does the next
lexeme tell.  So the reader tries the declaration first and goes back if it was none.  `Machine` is the
parser with a memory: a place among the lexemes, and the terms put down so far.  Reading a type moves the
place even when it fails, at whatever depth, and it is `typedDeclaration` that has to set it back.

The machine comes to what the parser comes to, so what is proved of its memory is proved of reading
statements.

## Main results

* `Parser.Machine.agrees_typeRef`: the machine reads types as the parser does, and moves forward only.
* `Parser.Machine.typedDeclaration_cases`: what trying a declaration comes to.
* `Parser.Machine.declarations_are_tried_atomically`: a try that finds no declaration leaves no trace, one
  that does ends behind a semicolon, and which of them it is can be told from the lexemes.
-/

namespace StateGuard

namespace Parser

/-- The parser with a memory: all lexemes, how many of them are taken, and the terms put down so far. -/
structure Machine where
  lexemes : List Lexeme
  position : Nat
  built : List Term

theorem expect_eq_error {which : Symbol} {ts : List Lexeme} {e : ParseError}
    (h : expect which ts = .error e) :
    ts.head? ≠ some (.symbol which) ∧ e = expected (.symbol which) ts := by
  cases ts with
  | nil => exact ⟨by simp, (Except.error.inj h).symm⟩
  | cons t ts =>
      simp only [expect] at h
      split at h
      · simp at h
      · next hNe => exact ⟨by simpa using hNe, (Except.error.inj h).symm⟩

theorem expectWord_eq_error {what : Wanted} {ts : List Lexeme} {e : ParseError}
    (h : expectWord what ts = .error e) :
    (∀ name, ts.head? = some (.word name) → isKeyword name = true) ∧ e = expected what ts := by
  unfold expectWord at h
  split at h
  · split at h
    · next hName => exact ⟨by simpa using hName, (Except.error.inj h).symm⟩
    · simp at h
  · next hNot =>
      refine ⟨?_, (Except.error.inj h).symm⟩
      intro name hWord
      obtain ⟨more, rfl⟩ := List.head?_eq_some_iff.1 hWord
      exact absurd rfl (hNot name more)

theorem rest_skipQuestion (ts : List Lexeme) :
    (skipQuestion ts).rest = if ts.head? = some (.symbol .question) then ts.tail else ts := by
  unfold skipQuestion
  split
  · rfl
  · next hNot =>
      rw [if_neg]
      intro hHead
      obtain ⟨more, rfl⟩ := List.head?_eq_some_iff.1 hHead
      exact hNot more rfl

namespace Machine

/-! ## Moving on -/

/-- The lexemes that are not taken yet. -/
def ahead (m : Machine) : List Lexeme := m.lexemes.drop m.position

/-- Take the next lexeme, if there is one. -/
def advance (m : Machine) : Machine :=
  if m.ahead.isEmpty then m else { m with position := m.position + 1 }

/-- One machine comes from another by taking lexemes. -/
structure Takes (m m' : Machine) : Prop where
  lexemes : m'.lexemes = m.lexemes
  built : m'.built = m.built
  position : m.position ≤ m'.position

theorem Takes.refl (m : Machine) : m.Takes m := ⟨rfl, rfl, Nat.le_refl _⟩

theorem Takes.trans {m m' m'' : Machine} (h : m.Takes m') (h' : m'.Takes m'') : m.Takes m'' :=
  ⟨h'.lexemes.trans h.lexemes, h'.built.trans h.built, Nat.le_trans h.position h'.position⟩

theorem takes_advance (m : Machine) : m.Takes m.advance := by
  unfold advance
  split
  · exact Takes.refl m
  · exact ⟨rfl, rfl, Nat.le_succ _⟩

variable {m : Machine} {t : Lexeme} {rest : List Lexeme}

theorem advance_of_head? (h : m.ahead.head? = some t) :
    m.advance = { m with position := m.position + 1 } := by
  unfold advance
  split
  · next hEmpty => simp [List.isEmpty_iff.1 hEmpty] at h
  · rfl

theorem ahead_of_head? (h : m.ahead.head? = some t) : m.ahead = t :: m.advance.ahead := by
  rw [advance_of_head? h]
  simp only [ahead, ← List.drop_drop, List.drop_one]
  exact List.eq_cons_of_mem_head? h

theorem ahead_advance (h : m.ahead = t :: rest) : m.advance.ahead = rest := by
  have hHead := ahead_of_head? (m := m) (t := t) (by rw [h]; rfl)
  rw [h] at hHead
  exact (List.cons.inj hHead).2.symm

theorem length_ahead_advance (h : m.ahead.head? = some t) :
    m.advance.ahead.length < m.ahead.length := by
  rw [ahead_of_head? h]
  simp

/-! ## Turns -/

/-- What reading comes to, and the machine after it.  A reading that fails may have taken lexemes. -/
structure Turn (bound : Nat) (α : Type) where
  outcome : Except ParseError α
  after : Machine
  fits : ∀ a, outcome = .ok a → after.ahead.length < bound

namespace Turn

variable {n k : Nat} {α β : Type}

def done (a : α) (after : Machine) (h : after.ahead.length < n) : Turn n α :=
  ⟨.ok a, after, fun _ _ => h⟩

def fail (e : ParseError) (after : Machine) : Turn n α := ⟨.error e, after, by simp⟩

/-- Go on from where a turn ends.  The first failure ends it all. -/
def next (first : Turn n α) (rest : (a : α) → (m : Machine) → m.ahead.length < n → Turn k β) :
    Turn k β :=
  match h : first.outcome with
  | .error e => fail e first.after
  | .ok a => rest a first.after (first.fits a h)

theorem next_of_error {first : Turn n α} {e : ParseError}
    {rest : (a : α) → (m : Machine) → m.ahead.length < n → Turn k β} (h : first.outcome = .error e) :
    first.next rest = fail e first.after := by
  unfold next
  split
  · next e' hError =>
      obtain rfl : e = e' := Except.error.inj (h.symm.trans hError)
      rfl
  · next a hOk => simp [h] at hOk

theorem next_of_ok {first : Turn n α} {a : α}
    {rest : (a : α) → (m : Machine) → m.ahead.length < n → Turn k β} (h : first.outcome = .ok a) :
    first.next rest = rest a first.after (first.fits a h) := by
  unfold next
  split
  · next e hError => simp [h] at hError
  · next b hOk =>
      obtain rfl : a = b := Except.ok.inj (h.symm.trans hOk)
      rfl

end Turn

/-- Take one symbol. -/
def expect (which : Symbol) (m : Machine) : Turn m.ahead.length Unit :=
  if h : m.ahead.head? = some (.symbol which) then .done () m.advance (length_ahead_advance h)
  else .fail (expected (.symbol which) m.ahead) m

/-- Take a word that is not a keyword. -/
def expectWord (what : Wanted) (m : Machine) : Turn m.ahead.length String :=
  match h : m.ahead.head? with
  | some (.word name) =>
    if isKeyword name then .fail (expected what m.ahead) m
    else .done name m.advance (length_ahead_advance h)
  | _ => .fail (expected what m.ahead) m

/-- Take a question mark, if there is one. -/
def skipQuestion (m : Machine) : Machine :=
  if m.ahead.head? = some (.symbol .question) then m.advance else m

theorem length_ahead_skipQuestion (m : Machine) :
    m.skipQuestion.ahead.length ≤ m.ahead.length := by
  unfold skipQuestion
  split
  · next h => exact Nat.le_of_lt (length_ahead_advance h)
  · exact Nat.le_refl _

section Dot

variable {m m₁ m₂ : Machine} {name : String} {rest : List Lexeme}

theorem length_ahead_dot (hDot : m₁.ahead = .symbol .dot :: .word name :: rest)
    (h₁ : m₁.ahead.length < m.ahead.length) : m₁.advance.ahead.length < m.ahead.length := by
  have hHead : m₁.ahead.head? = some (.symbol .dot) := by rw [hDot]; rfl
  exact Nat.lt_trans (length_ahead_advance hHead) h₁

theorem length_ahead_behind_dot (hDot : m₁.ahead = .symbol .dot :: .word name :: rest)
    (h₁ : m₁.ahead.length < m.ahead.length) (h₂ : m₂.ahead.length < m₁.advance.ahead.length) :
    m₂.ahead.length < m.ahead.length :=
  Nat.lt_trans h₂ (length_ahead_dot hDot h₁)

end Dot

/-- Take a name with dots. -/
def qualifiedName (m : Machine) : Turn m.ahead.length (List String) :=
  (m.expectWord .typeName).next fun name m₁ h₁ =>
    match hDot : m₁.ahead with
    | .symbol .dot :: .word _ :: _ =>
      (qualifiedName m₁.advance).next fun names m₂ h₂ =>
        .done (name :: names) m₂ (length_ahead_behind_dot hDot h₁ h₂)
    | _ => .done [name] m₁ h₁
termination_by m.ahead.length
decreasing_by exact length_ahead_dot hDot h₁

mutual
/-- Take a type. -/
def typeRef (resolve : String → String) (m : Machine) : Turn m.ahead.length TypeRef :=
  m.qualifiedName.next fun names m₁ h₁ =>
    if h : m₁.ahead.head? = some (.symbol .lt) then
      (typeArguments resolve m₁.advance).next fun args m₂ h₂ =>
        .done (.generic (fullName resolve names) args) m₂.skipQuestion (by
          have := length_ahead_advance h
          have := length_ahead_skipQuestion m₂
          omega)
    else .done (.named (fullName resolve names)) m₁.skipQuestion (by
      have := length_ahead_skipQuestion m₁
      omega)
termination_by 2 * m.ahead.length
decreasing_by
  have := length_ahead_advance h
  omega

/-- Take type arguments up to the closing bracket. -/
def typeArguments (resolve : String → String) (m : Machine) : Turn m.ahead.length (List TypeRef) :=
  (typeRef resolve m).next fun arg m₁ h₁ =>
    if h : m₁.ahead.head? = some (.symbol .comma) then
      (typeArguments resolve m₁.advance).next fun args m₂ h₂ => .done (arg :: args) m₂ (by
        have := length_ahead_advance h
        omega)
    else (m₁.expect .gt).next fun _ m₂ h₂ => .done [arg] m₂ (by omega)
termination_by 2 * m.ahead.length + 1
decreasing_by
  · omega
  · have := length_ahead_advance h
    omega
end

/-! ## The machine reads types as the parser does -/


/-- A turn of a machine comes to what an attempt comes to, and has only taken lexemes. -/
structure Agrees {n l : Nat} {α : Type} (m : Machine) (turn : Turn n α)
    (attempt : Attempt (Parsed l α)) : Prop where
  outcome : turn.outcome = attempt.map (·.value)
  ahead : ∀ r, attempt = .ok r → turn.after.ahead = r.rest
  takes : m.Takes turn.after

section Agrees

variable {n k l j : Nat} {α β : Type}

theorem agrees_fail {m m' : Machine} (e : ParseError) (h : m.Takes m') :
    m.Agrees (Turn.fail e m' : Turn n α) (.error e : Attempt (Parsed l α)) :=
  ⟨rfl, by simp, h⟩

theorem agrees_done {m m' : Machine} {a : α} {h : m'.ahead.length < n} {r : Parsed l α}
    (hTakes : m.Takes m') (hValue : r.value = a) (hRest : m'.ahead = r.rest) :
    m.Agrees (Turn.done a m' h) (.ok r) := by
  refine ⟨by simp [Turn.done, Except.map, hValue], ?_, hTakes⟩
  rintro s ⟨⟩
  exact hRest

theorem Agrees.next {m : Machine} {first : Turn n α} {attempt : Attempt (Parsed l α)}
    {rest : (a : α) → (m : Machine) → m.ahead.length < n → Turn k β}
    {others : Parsed l α → Attempt (Parsed j β)} (hFirst : m.Agrees first attempt)
    (hNext : ∀ (value : α) (left : List Lexeme) (fits : left.length < l) (m' : Machine)
      (h : m'.ahead.length < n), m'.ahead = left →
        m'.Agrees (rest value m' h) (others ⟨value, left, fits⟩)) :
    m.Agrees (first.next rest) (attempt >>= others) := by
  cases hAttempt : attempt with
  | error e =>
      have hOutcome : first.outcome = .error e := by rw [hFirst.outcome, hAttempt]; rfl
      rw [Turn.next_of_error hOutcome]
      exact agrees_fail e hFirst.takes
  | ok r =>
      have hOutcome : first.outcome = .ok r.value := by rw [hFirst.outcome, hAttempt]; rfl
      rw [Turn.next_of_ok hOutcome]
      have hAgrees := hNext r.value r.rest r.fits first.after (first.fits _ hOutcome)
        (hFirst.ahead r hAttempt)
      exact ⟨hAgrees.outcome, hAgrees.ahead, hFirst.takes.trans hAgrees.takes⟩

theorem Agrees.after {m m' : Machine} {turn : Turn n α} {attempt : Attempt (Parsed l α)}
    (h : m'.Agrees turn attempt) (hTakes : m.Takes m') : m.Agrees turn attempt :=
  ⟨h.outcome, h.ahead, hTakes.trans h.takes⟩

theorem agrees_expect (which : Symbol) (m : Machine) :
    m.Agrees (m.expect which) (Parser.expect which m.ahead) := by
  unfold expect
  cases hAttempt : Parser.expect which m.ahead with
  | ok r =>
      have hAhead := expect_eq_ok hAttempt
      rw [dif_pos (by rw [hAhead]; rfl)]
      exact agrees_done (takes_advance m) rfl (ahead_advance hAhead)
  | error e =>
      obtain ⟨hHead, rfl⟩ := expect_eq_error hAttempt
      rw [dif_neg hHead]
      exact agrees_fail _ (Takes.refl m)

theorem agrees_expectWord (what : Wanted) (m : Machine) :
    m.Agrees (m.expectWord what) (Parser.expectWord what m.ahead) := by
  unfold expectWord
  cases hAttempt : Parser.expectWord what m.ahead with
  | ok r =>
      obtain ⟨hAhead, hName⟩ := expectWord_eq_ok hAttempt
      have hHead : m.ahead.head? = some (.word r.value) :=
        List.head?_eq_some_iff.2 ⟨r.rest, hAhead⟩
      split
      · next name hWord =>
          obtain rfl : r.value = name := by simpa [hHead] using hWord
          rw [if_neg (by simp [hName])]
          exact agrees_done (takes_advance m) rfl (ahead_advance hAhead)
      · next hNot => exact absurd hHead (hNot _)
  | error e =>
      obtain ⟨hHead, rfl⟩ := expectWord_eq_error hAttempt
      split
      · next name hWord =>
          rw [if_pos (hHead name hWord)]
          exact agrees_fail _ (Takes.refl m)
      · exact agrees_fail _ (Takes.refl m)

theorem takes_skipQuestion (m : Machine) : m.Takes m.skipQuestion := by
  unfold skipQuestion
  split
  · exact takes_advance m
  · exact Takes.refl m

theorem ahead_skipQuestion (m : Machine) :
    m.skipQuestion.ahead = (Parser.skipQuestion m.ahead).rest := by
  rw [rest_skipQuestion, skipQuestion]
  split
  · next h => rw [ahead_of_head? h, List.tail_cons]
  · rfl

theorem agrees_qualifiedName (m : Machine) {ts : List Lexeme} (hAhead : m.ahead = ts) :
    m.Agrees m.qualifiedName (Parser.qualifiedName ts) := by
  subst hAhead
  rw [qualifiedName, Parser.qualifiedName.eq_def]
  refine (agrees_expectWord _ m).next ?_
  intro name left fits m₁ h hLeft
  dsimp only
  split
  · next word more hDot =>
      have hLess := length_ahead_advance (List.head?_eq_some_iff.2 ⟨_, hDot⟩)
      obtain rfl := hLeft.symm.trans hDot
      refine ((agrees_qualifiedName m₁.advance (ahead_advance hDot)).next ?_).after (takes_advance m₁)
      rintro names left' fits' m₂ h' rfl
      exact agrees_done (Takes.refl m₂) rfl rfl
  · next hNot =>
      split
      · next word more => exact absurd hLeft (hNot _ _)
      · exact agrees_done (Takes.refl m₁) rfl hLeft
termination_by m.ahead.length
decreasing_by omega

variable (resolve : String → String)

mutual
/-- **The machine reads types as the parser does.** -/
theorem agrees_typeRef (m : Machine) {ts : List Lexeme} (hAhead : m.ahead = ts) :
    m.Agrees (m.typeRef resolve) (Parser.typeRef resolve ts) := by
  subst hAhead
  rw [typeRef, Parser.typeRef.eq_def]
  refine (agrees_qualifiedName m rfl).next ?_
  rintro names left fits m₁ h rfl
  dsimp only
  split
  · next hLt =>
      split
      · next after fits' hAccept =>
          have hAfter := ahead_advance (accept_eq_some hAccept)
          have hLess := length_ahead_advance hLt
          refine ((agrees_typeArguments m₁.advance hAfter).next ?_).after (takes_advance m₁)
          rintro args left' fits' m₂ h' rfl
          exact agrees_done (takes_skipQuestion m₂) rfl (ahead_skipQuestion m₂)
      · next hAccept => exact absurd hLt (accept_eq_none_iff.1 hAccept)
  · next hNot =>
      split
      · next after fits' hAccept =>
          exact absurd (List.head?_eq_some_iff.2 ⟨_, accept_eq_some hAccept⟩) hNot
      · exact agrees_done (takes_skipQuestion m₁) rfl (ahead_skipQuestion m₁)
termination_by 2 * m.ahead.length
decreasing_by omega

theorem agrees_typeArguments (m : Machine) {ts : List Lexeme} (hAhead : m.ahead = ts) :
    m.Agrees (m.typeArguments resolve) (Parser.typeArguments resolve ts) := by
  subst hAhead
  rw [typeArguments, Parser.typeArguments.eq_def]
  refine (agrees_typeRef m rfl).next ?_
  rintro arg left fits m₁ h rfl
  dsimp only
  split
  · next hComma =>
      split
      · next after fits' hAccept =>
          have hAfter := ahead_advance (accept_eq_some hAccept)
          have hLess := length_ahead_advance hComma
          refine ((agrees_typeArguments m₁.advance hAfter).next ?_).after (takes_advance m₁)
          rintro args left' fits' m₂ h' rfl
          exact agrees_done (Takes.refl m₂) rfl rfl
      · next hAccept => exact absurd hComma (accept_eq_none_iff.1 hAccept)
  · next hNot =>
      split
      · next after fits' hAccept =>
          exact absurd (List.head?_eq_some_iff.2 ⟨_, accept_eq_some hAccept⟩) hNot
      · refine (agrees_expect .gt m₁).next ?_
        rintro _ left' fits' m₂ h' rfl
        exact agrees_done (Takes.refl m₂) rfl rfl
termination_by 2 * m.ahead.length + 1
decreasing_by all_goals omega
end

end Agrees

/-! ## Declarations -/

/-- Read an expression.  Its terms are put down, each after its parts. -/
def expression (resolve : String → String) (m : Machine) : Except ParseError (Term × Machine) := do
  let ⟨value, rest, _⟩ ← Parser.expression resolve m.ahead
  return (value, { m with
    position := m.lexemes.length - rest.length
    built := m.built ++ value.postorder })

/-- Take a semicolon. -/
def semicolon (m : Machine) : Except ParseError Machine :=
  (m.expect .semicolon).outcome.map fun _ => (m.expect .semicolon).after

/-- Put down a term that begins where `before` lexemes were left. -/
def put (before : Nat) (node : Node Term) (m : Machine) : Term × Machine :=
  let term := spanning before node m.ahead
  (term, { m with built := m.built ++ [term] })

/-- Whether a word of the language itself comes next. -/
def startsWithKeyword (m : Machine) : Bool :=
  match m.ahead with
  | .word name :: _ => isKeyword name
  | _ => false

/-- The rest of a declaration after its type and name. -/
def declarator (resolve : String → String) (before : Nat) (type : TypeRef) (name : String)
    (m : Machine) : Except ParseError (Term × Machine) := do
  if m.ahead.head? = some (.symbol .assign) then
    let (init, m) ← m.advance.expression resolve
    let m ← m.semicolon
    return m.put before (.localDeclaration name (some type) (some init))
  else
    let m ← m.semicolon
    return m.put before (.localDeclaration name (some type) none)

/-- Try to read a declaration.  The place is set back if there is none. -/
def typedDeclaration (resolve : String → String) (m : Machine) :
    Except ParseError (Option Term × Machine) := do
  if m.startsWithKeyword then return (none, m)
  let turn := m.typeRef resolve
  match turn.outcome with
  | .error _ => return (none, { turn.after with position := m.position })
  | .ok type =>
    match turn.after.ahead with
    | .word name :: next :: _ =>
      if !isKeyword name && (next = .symbol .assign || next = .symbol .semicolon) then
        let (term, m) ← turn.after.advance.declarator resolve m.ahead.length type name
        return (some term, m)
      else return (none, { turn.after with position := m.position })
    | _ => return (none, { turn.after with position := m.position })

/-- Read an expression and a semicolon. -/
def expressionStatement (resolve : String → String) (m : Machine) :
    Except ParseError (Term × Machine) := do
  let (expr, m') ← m.expression resolve
  let m' ← m'.semicolon
  return m'.put m.ahead.length (.expressionStatement expr)

/-- Read a declaration or else an expression statement. -/
def simpleStatement (resolve : String → String) (m : Machine) : Except ParseError (Term × Machine) := do
  match ← m.typedDeclaration resolve with
  | (some term, m) => return (term, m)
  | (none, m) => m.expressionStatement resolve

/-! ## What trying a declaration comes to -/

/-- A type, a word that is no keyword, and an initialiser or a semicolon come next. -/
def BeginsDeclaration (resolve : String → String) (ts : List Lexeme) : Prop :=
  ∃ type name next after, TakesType resolve ts type (.word name :: next :: after) ∧
    isKeyword name = false ∧ (next = .symbol .assign ∨ next = .symbol .semicolon)

section Cases

variable {resolve : String → String}

/-- A declaration begins where the reader of types stops before a word and an initialiser or a
semicolon. -/
theorem beginsDeclaration_iff {ts : List Lexeme} : BeginsDeclaration resolve ts ↔
    ∃ r name next after, Parser.typeRef resolve ts = .ok r ∧ r.rest = .word name :: next :: after ∧
      isKeyword name = false ∧ (next = .symbol .assign ∨ next = .symbol .semicolon) := by
  constructor
  · rintro ⟨type, name, next, after, hType, hAccepted⟩
    obtain ⟨r, hRead, -, hRest⟩ := hType.reads (endsType_cons (by simp))
    exact ⟨r, name, next, after, hRead, hRest, hAccepted⟩
  · rintro ⟨r, name, next, after, hRead, hRest, hAccepted⟩
    exact ⟨r.value, name, next, after, hRest ▸ takesType_of_typeRef ts hRead, hAccepted⟩

/-- Where the reader of types stops, the declaration goes on. -/
theorem BeginsDeclaration.rest_eq {ts : List Lexeme} {r : Parsed ts.length TypeRef}
    (hRead : Parser.typeRef resolve ts = .ok r) (h : BeginsDeclaration resolve ts) :
    ∃ name next after, r.rest = .word name :: next :: after ∧ isKeyword name = false ∧
      (next = .symbol .assign ∨ next = .symbol .semicolon) := by
  obtain ⟨r', name, next, after, hRead', hAccepted⟩ := beginsDeclaration_iff.1 h
  obtain rfl : r = r' := Except.ok.inj (hRead.symm.trans hRead')
  exact ⟨name, next, after, hAccepted⟩

theorem not_beginsDeclaration_of_keyword {m : Machine} (h : m.startsWithKeyword = true) :
    ¬ BeginsDeclaration resolve m.ahead := by
  rintro ⟨type, name, next, after, hType, -, -⟩
  obtain ⟨word, more, hAhead, hWord⟩ := hType.exists_word
  simp [startsWithKeyword, hAhead, hWord] at h

theorem back_eq {m m' : Machine} (h : m.Takes m') : { m' with position := m.position } = m := by
  obtain ⟨lexemes, position, built⟩ := m
  obtain ⟨hLexemes, hBuilt, -⟩ := h
  simp_all

/-- **What trying a declaration comes to:** it goes on behind a type and a name, or nothing has changed
and no declaration begins there. -/
theorem typedDeclaration_cases (resolve : String → String) (m : Machine) :
    (∃ type name next after m', TakesType resolve m.ahead type (.word name :: next :: after) ∧
      isKeyword name = false ∧ (next = .symbol .assign ∨ next = .symbol .semicolon) ∧
      m.Takes m' ∧ m.position < m'.position ∧ m'.ahead = next :: after ∧
      m.typedDeclaration resolve =
        (m'.declarator resolve m.ahead.length type name).map fun r => (some r.1, r.2)) ∨
    (¬ BeginsDeclaration resolve m.ahead ∧ m.typedDeclaration resolve = .ok (none, m)) := by
  have hAgrees := agrees_typeRef resolve m rfl
  have hBack : (Except.ok (none, { (m.typeRef resolve).after with position := m.position }) :
      Except ParseError (Option Term × Machine)) = .ok (none, m) :=
    congrArg (fun m => Except.ok (none, m)) (back_eq hAgrees.takes)
  unfold typedDeclaration
  split
  · next hKeyword => exact .inr ⟨not_beginsDeclaration_of_keyword hKeyword, rfl⟩
  dsimp only
  rw [hAgrees.outcome]
  cases hRead : Parser.typeRef resolve m.ahead with
  | error e =>
      refine .inr ⟨?_, hBack⟩
      rw [beginsDeclaration_iff]
      rintro ⟨r, _, _, _, hOk, -⟩
      simp [hRead] at hOk
  | ok r =>
      have hAhead := hAgrees.ahead r hRead
      dsimp only [Except.map]
      split
      · next name next after hName =>
          have hType := takesType_of_typeRef m.ahead hRead
          rw [← hAhead, hName] at hType
          split
          · next hAccepted =>
              simp only [Bool.and_eq_true, Bool.not_eq_true', Bool.or_eq_true,
                decide_eq_true_eq] at hAccepted
              have hMove := advance_of_head? (List.head?_eq_some_iff.2 ⟨_, hName⟩)
              refine .inl ⟨r.value, name, next, after, _, hType, hAccepted.1, hAccepted.2,
                hAgrees.takes.trans (takes_advance _), ?_, ahead_advance hName, ?_⟩
              · rw [hMove]
                exact Nat.lt_succ_of_le hAgrees.takes.position
              · cases (m.typeRef resolve).after.advance.declarator resolve m.ahead.length r.value
                  name <;> rfl
          · next hNot =>
              refine .inr ⟨fun hBegins => ?_, hBack⟩
              obtain ⟨name', next', after', hRest, hWord, hNext⟩ := hBegins.rest_eq hRead
              rw [← hAhead, hName] at hRest
              obtain ⟨rfl, rfl, -⟩ : name = name' ∧ next = next' ∧ after = after' := by
                simpa using hRest
              simp [hWord, hNext] at hNot
      · next hNot =>
          refine .inr ⟨fun hBegins => ?_, hBack⟩
          obtain ⟨name', next', after', hRest, -⟩ := hBegins.rest_eq hRead
          exact hNot name' next' after' (hAhead.trans hRest)

/-! ## Statements that are read to the end -/

/-- One machine comes from another by reading a statement: it has put down the terms of the statement, and
the last lexeme it took is a semicolon. -/
structure Finishes (m m' : Machine) (t : Term) : Prop where
  lexemes : m'.lexemes = m.lexemes
  built : m'.built = m.built ++ t.postorder
  position : m.position < m'.position
  semicolon : m'.lexemes[m'.position - 1]? = some (.symbol .semicolon)

/-- Reading an expression fails with the parser or moves the place behind the expression. -/
theorem expression_cases (resolve : String → String) (m : Machine) {ts : List Lexeme} (hAhead : m.ahead = ts) :
    (∃ e, Parser.expression resolve ts = .error e ∧ m.expression resolve = .error e) ∨
    ∃ r m', Parser.expression resolve ts = .ok r ∧ m.expression resolve = .ok (r.value, m') ∧
      m'.ahead = r.rest ∧ m'.lexemes = m.lexemes ∧ m'.built = m.built ++ r.value.postorder ∧
      m.position < m'.position := by
  subst hAhead
  unfold expression
  cases hRead : Parser.expression resolve m.ahead with
  | error e => exact .inl ⟨e, rfl, rfl⟩
  | ok r =>
      have hSuffix : r.rest <:+ m.lexemes :=
        (leaves_expression resolve m.ahead r hRead).trans (List.drop_suffix _ _)
      have hFits : r.rest.length < m.lexemes.length - m.position := by
        simpa [ahead] using r.fits
      refine .inr ⟨r, _, rfl, rfl, ?_, rfl, rfl, ?_⟩
      · exact (List.suffix_iff_eq_drop.1 hSuffix).symm
      · dsimp only
        omega

/-- Taking a semicolon fails with the parser or takes one lexeme. -/
theorem semicolon_cases (m : Machine) {ts : List Lexeme} (hAhead : m.ahead = ts) :
    (∃ e, Parser.expect .semicolon ts = .error e ∧ m.semicolon = .error e) ∨
    ∃ r, Parser.expect .semicolon ts = .ok r ∧ m.semicolon = .ok m.advance ∧
      ts = .symbol .semicolon :: r.rest ∧ m.advance.ahead = r.rest := by
  subst hAhead
  have hAgrees := agrees_expect .semicolon m
  unfold semicolon
  cases hRead : Parser.expect .semicolon m.ahead with
  | error e =>
      refine .inl ⟨e, rfl, ?_⟩
      rw [hAgrees.outcome, hRead]
      rfl
  | ok r =>
      have hAhead := expect_eq_ok hRead
      refine .inr ⟨r, rfl, ?_, hAhead, ahead_advance hAhead⟩
      rw [hAgrees.outcome, hRead, expect, dif_pos (List.head?_eq_some_iff.2 ⟨_, hAhead⟩)]
      rfl

theorem expression_eq_ok {m m' : Machine} {value : Term} (h : m.expression resolve = .ok (value, m')) :
    m'.lexemes = m.lexemes ∧ m'.built = m.built ++ value.postorder ∧ m.position < m'.position := by
  rcases expression_cases resolve m rfl with ⟨e, -, hError⟩ | ⟨r, m₁, -, hRead, -, hMoved⟩
  · simp [hError] at h
  · obtain ⟨rfl, rfl⟩ := Prod.mk.inj (Except.ok.inj (hRead.symm.trans h))
    exact hMoved

theorem semicolon_eq_ok {m m' : Machine} (h : m.semicolon = .ok m') :
    m' = m.advance ∧ ∃ rest, m.ahead = .symbol .semicolon :: rest := by
  rcases semicolon_cases m rfl with ⟨e, -, hError⟩ | ⟨r, -, hTaken, hAhead, -⟩
  · simp [hError] at h
  · exact ⟨Except.ok.inj (h.symm.trans hTaken), r.rest, hAhead⟩

/-- A node is put down behind its parts and a semicolon. -/
theorem finishes_put {m m' : Machine} {node : Node Term} {rest : List Lexeme} (before : Nat)
    (hLexemes : m'.lexemes = m.lexemes) (hPosition : m.position ≤ m'.position)
    (hBuilt : m'.built = m.built ++ node.children.flatMap Term.postorder)
    (hAhead : m'.ahead = .symbol .semicolon :: rest) :
    m.Finishes (m'.advance.put before node).2 (m'.advance.put before node).1 := by
  have hHead := List.head?_eq_some_iff.2 ⟨rest, hAhead⟩
  rw [advance_of_head? hHead]
  refine ⟨hLexemes, ?_, Nat.lt_succ_of_le hPosition, ?_⟩
  · simp [put, hBuilt, Term.postorder_eq, spanning]
  · rw [ahead, List.head?_drop] at hHead
    exact hHead

/-- **A declaration is read up to its semicolon.** -/
theorem declarator_finishes {m m' m'' : Machine} {before : Nat} {type : TypeRef} {name : String}
    {t : Term} (hTakes : m.Takes m') (h : m'.declarator resolve before type name = .ok (t, m'')) :
    m.Finishes m'' t := by
  unfold declarator at h
  split at h
  · obtain ⟨⟨init, m₁⟩, hInit, h⟩ := exists_of_bind_eq_ok h
    obtain ⟨m₂, hSemicolon, h⟩ := exists_of_bind_eq_ok h
    obtain ⟨rfl, rfl⟩ := Prod.mk.inj (Except.ok.inj h)
    obtain ⟨hLexemes, hBuilt, hPosition⟩ := expression_eq_ok hInit
    obtain ⟨rfl, rest, hAhead⟩ := semicolon_eq_ok hSemicolon
    have hAll := hTakes.trans (takes_advance m')
    refine finishes_put before (hLexemes.trans hAll.lexemes)
      (Nat.le_of_lt (Nat.lt_of_le_of_lt hAll.position hPosition)) ?_ hAhead
    simp [hBuilt, hAll.built, Node.children]
  · obtain ⟨m₂, hSemicolon, h⟩ := exists_of_bind_eq_ok h
    obtain ⟨rfl, rfl⟩ := Prod.mk.inj (Except.ok.inj h)
    obtain ⟨rfl, rest, hAhead⟩ := semicolon_eq_ok hSemicolon
    refine finishes_put before hTakes.lexemes hTakes.position ?_ hAhead
    simp [Node.children, hTakes.built]

/-! ## The machine reads statements as the parser does -/

/-- A machine comes to what an attempt comes to: the same term and the same lexemes left, or the same
error. -/
def Comes {n : Nat} (result : Except ParseError (Term × Machine)) (attempt : Attempt (Parsed n Term)) :
    Prop :=
  result.map (fun r => (r.1, r.2.ahead)) = attempt.map fun r => (r.value, r.rest)

/-- Whether a statement comes next that is known by its first lexemes. -/
def opensOther : List Lexeme → Bool
  | .symbol .leftBrace :: _ => true
  | .word "if" :: _ => true
  | .word "return" :: _ => true
  | .word "var" :: .word _ :: .symbol .assign :: _ => true
  | _ => false

theorem declarationHead?_eq_none {ts : List Lexeme} (h : ¬ BeginsDeclaration resolve ts) :
    declarationHead? resolve ts = none := by
  unfold declarationHead?
  split
  · rfl
  · next type rest fits hRead =>
      split
      · next name next after fits' hRest =>
          rw [if_neg]
          intro hAccepted
          simp only [Bool.and_eq_true, Bool.not_eq_true', Bool.or_eq_true,
            decide_eq_true_eq] at hAccepted
          exact h ⟨type, name, next, after, takesType_of_typeRef ts hRead, hAccepted⟩
      · rfl

theorem declarationHead?_eq_some {ts after : List Lexeme} {type : TypeRef} {name : String}
    {next : Lexeme} (hType : TakesType resolve ts type (.word name :: next :: after))
    (hName : isKeyword name = false) (hNext : next = .symbol .assign ∨ next = .symbol .semicolon) :
    ∃ fits, declarationHead? resolve ts = some ⟨(type, name), next :: after, fits⟩ := by
  obtain ⟨⟨type', rest, fits⟩, hRead, rfl, hRest⟩ := hType.reads (endsType_cons (by simp))
  dsimp only at hRest
  subst hRest
  refine ⟨by simp at fits ⊢; omega, ?_⟩
  unfold declarationHead?
  rw [hRead]
  dsimp only
  rw [if_pos (by simpa [hName] using hNext)]

theorem comes_error {n : Nat} (e : ParseError) :
    Comes (.error e) (.error e : Attempt (Parsed n Term)) := rfl

theorem comes_put {n : Nat} {m : Machine} {before : Nat} {node : Node Term} {rest : List Lexeme}
    {fits : rest.length < n} (h : m.ahead = rest) :
    Comes (.ok (m.put before node)) (.ok ⟨spanning before node rest, rest, fits⟩) := by
  subst h
  rfl

/-- What is left after two parts is less than there was. -/
theorem fits_after {ts left rest : List Lexeme} (h : left.length < ts.length)
    (h' : rest.length < left.length) : rest.length < ts.length :=
  Nat.lt_trans h' h

/-- An expression and a semicolon are read alike. -/
theorem comes_expressionStatement (m : Machine) {ts : List Lexeme} (hAhead : m.ahead = ts) :
    Comes (m.expressionStatement resolve) (do
      let ⟨expr, left, h⟩ ← Parser.expression resolve ts
      let ⟨_, rest, h'⟩ ← Parser.expect .semicolon left
      return (⟨spanning ts.length (.expressionStatement expr) rest, rest, fits_after h h'⟩ :
        Parsed ts.length Term)) := by
  unfold expressionStatement
  rcases expression_cases resolve m hAhead with
    ⟨e, hRead, hMachine⟩ | ⟨⟨expr, rest, fits⟩, m₁, hRead, hMachine, hRest, -⟩
  · rw [hRead, hMachine]
    exact comes_error e
  · rw [hRead, hMachine]
    rcases semicolon_cases m₁ hRest with ⟨e, hSemi, hTaken⟩ | ⟨⟨_, rest', fits'⟩, hSemi, hTaken, -, h⟩
    · simp only [bind, Except.bind, hSemi, hTaken]
      exact comes_error e
    · simp only [bind, Except.bind, hSemi, hTaken, hAhead]
      exact comes_put h

/-- A declaration with an initialiser is read alike. -/
theorem comes_declarator_assign {n before : Nat} {type : TypeRef} {name : String} (m : Machine)
    {after : List Lexeme} (hAhead : m.ahead = .symbol .assign :: after) (hFits : after.length < n) :
    Comes (m.declarator resolve before type name) (do
      let ⟨init, rest, _⟩ ← Parser.expression resolve after
      let ⟨_, rest, _⟩ ← Parser.expect .semicolon rest
      return (⟨spanning before (.localDeclaration name (some type) (some init)) rest, rest, by omega⟩ :
        Parsed n Term)) := by
  unfold declarator
  rw [if_pos (by rw [hAhead]; rfl)]
  rcases expression_cases resolve m.advance (ahead_advance hAhead) with
    ⟨e, hRead, hMachine⟩ | ⟨⟨init, rest, fits⟩, m₁, hRead, hMachine, hRest, -⟩
  · rw [hRead, hMachine]
    exact comes_error e
  · rw [hRead, hMachine]
    rcases semicolon_cases m₁ hRest with ⟨e, hSemi, hTaken⟩ | ⟨⟨_, rest', fits'⟩, hSemi, hTaken, -, h⟩
    · simp only [bind, Except.bind, hSemi, hTaken]
      exact comes_error e
    · simp only [bind, Except.bind, hSemi, hTaken]
      exact comes_put h

/-- A declaration without an initialiser is read alike. -/
theorem comes_declarator_semicolon {n before : Nat} {type : TypeRef} {name : String} (m : Machine)
    {ts : List Lexeme} (hAhead : m.ahead = ts) (hHead : ts.head? ≠ some (.symbol .assign))
    (hFits : ts.length < n) :
    Comes (m.declarator resolve before type name) (do
      let ⟨_, rest, _⟩ ← Parser.expect .semicolon ts
      return (⟨spanning before (.localDeclaration name (some type) none) rest, rest, by omega⟩ :
        Parsed n Term)) := by
  unfold declarator
  rw [if_neg (by rwa [hAhead])]
  rcases semicolon_cases m hAhead with ⟨e, hSemi, hTaken⟩ | ⟨⟨_, rest', fits'⟩, hSemi, hTaken, -, h⟩
  · rw [hSemi, hTaken]
    exact comes_error e
  · rw [hSemi, hTaken]
    exact comes_put h

/-- **The machine reads statements as the parser does.** -/
theorem comes_simpleStatement (resolve : String → String) (m : Machine) (hOther : opensOther m.ahead = false) :
    Comes (m.simpleStatement resolve) (Parser.statement resolve m.ahead) := by
  have hCases := typedDeclaration_cases resolve m
  generalize hAhead : m.ahead = ts at hOther hCases ⊢
  rw [statement.eq_def]
  split
  · simp [opensOther] at hOther
  · simp [opensOther] at hOther
  · simp [opensOther] at hOther
  · simp [opensOther] at hOther
  · simp [opensOther] at hOther
  · rcases hCases with ⟨type, name, next, after, m', hType, hName, hNext, -, -, hAfter, hTry⟩ |
      ⟨hNone, hTry⟩
    · obtain ⟨fits, hHead⟩ := declarationHead?_eq_some hType hName hNext
      have hMachine : m.simpleStatement resolve = m'.declarator resolve ts.length type name := by
        unfold simpleStatement
        rw [hTry]
        cases m'.declarator resolve ts.length type name <;> rfl
      rw [hMachine, hHead]
      dsimp only
      rcases hNext with rfl | rfl
      · rw [accept_cons]
        exact comes_declarator_assign m' hAfter (Nat.lt_of_succ_lt fits)
      · rw [accept_of_ne (by simp)]
        exact comes_declarator_semicolon m' hAfter (by simp) fits
    · rw [declarationHead?_eq_none hNone]
      have hMachine : m.simpleStatement resolve = m.expressionStatement resolve := by
        unfold simpleStatement
        rw [hTry]
        rfl
      rw [hMachine]
      exact comes_expressionStatement m hAhead

end Cases

/-- **Declarations are tried atomically.**  A try that finds none leaves the machine as it was; one that
finds a declaration ends behind its semicolon and has put down its terms; and it finds one, or fails on the
way, exactly when a type, a word that is no keyword, and an initialiser or a semicolon come next.  Then
and only then does the reader of statements not read an expression. -/
theorem declarations_are_tried_atomically (resolve : String → String) (m : Machine) :
    (∀ m', m.typedDeclaration resolve = .ok (none, m') → m' = m) ∧
    (∀ t m', m.typedDeclaration resolve = .ok (some t, m') → m.Finishes m' t) ∧
    (((∃ t m', m.typedDeclaration resolve = .ok (some t, m')) ∨
        ∃ e, m.typedDeclaration resolve = .error e) ↔ BeginsDeclaration resolve m.ahead) ∧
    (BeginsDeclaration resolve m.ahead ↔ ∃ r name next after,
      Parser.typeRef resolve m.ahead = .ok r ∧ r.rest = .word name :: next :: after ∧
        isKeyword name = false ∧ (next = .symbol .assign ∨ next = .symbol .semicolon)) ∧
    (opensOther m.ahead = false →
      Comes (m.simpleStatement resolve) (Parser.statement resolve m.ahead) ∧
        (¬ BeginsDeclaration resolve m.ahead →
          Comes (m.expressionStatement resolve) (Parser.statement resolve m.ahead))) := by
  rcases typedDeclaration_cases resolve m with
    ⟨type, name, next, after, m', hType, hName, hNext, hTakes, -, -, hTry⟩ | ⟨hNone, hTry⟩
  · have hBegins : BeginsDeclaration resolve m.ahead := ⟨type, name, next, after, hType, hName, hNext⟩
    refine ⟨?_, ?_, ?_, beginsDeclaration_iff, fun hOther => ⟨comes_simpleStatement resolve m hOther, ?_⟩⟩
    · intro m'' h
      rw [hTry] at h
      cases hRest : m'.declarator resolve m.ahead.length type name <;> simp [hRest, Except.map] at h
    · intro t m'' h
      rw [hTry] at h
      cases hRest : m'.declarator resolve m.ahead.length type name with
      | error e => simp [hRest, Except.map] at h
      | ok r =>
          obtain ⟨rfl, rfl⟩ : r.1 = t ∧ r.2 = m'' := by simpa [hRest, Except.map] using h
          exact declarator_finishes hTakes hRest
    · refine ⟨fun _ => hBegins, fun _ => ?_⟩
      rw [hTry]
      cases m'.declarator resolve m.ahead.length type name with
      | error e => exact .inr ⟨e, rfl⟩
      | ok r => exact .inl ⟨r.1, r.2, rfl⟩
    · exact fun hNot => absurd hBegins hNot
  · refine ⟨?_, ?_, ?_, beginsDeclaration_iff, fun hOther => ⟨comes_simpleStatement resolve m hOther, ?_⟩⟩
    · intro m' h
      simpa [hTry] using h.symm
    · intro t m' h
      simp [hTry] at h
    · simp [hTry, hNone]
    · intro _
      have hComes := comes_simpleStatement resolve m hOther
      rwa [simpleStatement, hTry] at hComes

/-- A comparison that begins like a declaration is no declaration: the machine is back where it was,
although it has read a type with arguments and a word. -/
theorem comparison_leaves_no_trace :
    let m : Machine := ⟨[.symbol .semicolon, .word "a", .symbol .lt, .word "b", .symbol .gt, .word "c",
      .symbol .eqEq, .word "d", .symbol .semicolon], 1, []⟩
    m.typedDeclaration id = .ok (none, m) ∧ ¬ BeginsDeclaration id m.ahead := by
  intro m
  obtain ⟨hNone, -, hCommits, -⟩ := declarations_are_tried_atomically id m
  have hTry : (m.typedDeclaration id).toOption.map (·.1.isNone) = some true := by decide +kernel
  cases hCase : m.typedDeclaration id with
  | error e => simp [hCase, Except.toOption] at hTry
  | ok r =>
      obtain ⟨_ | t, m'⟩ := r
      · obtain rfl := hNone m' hCase
        refine ⟨rfl, fun hBegins => ?_⟩
        rcases hCommits.2 hBegins with ⟨t, m'', hSome⟩ | ⟨e, hError⟩
        · simp [hCase] at hSome
        · simp [hCase] at hError
      · simp [hCase, Except.toOption] at hTry

end Machine

end Parser

end StateGuard
