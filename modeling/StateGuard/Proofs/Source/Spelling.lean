import StateGuard.Proofs.Source.Tokens
import StateGuard.Proofs.Syntax.Expressions
import StateGuard.Source.Program

/-!
# The text of an expression is cut into its lexemes

The lexer takes the longest lexeme at each place, so whether a text is cut as it was written depends on
what follows it.  `Spells text ls` says that the text is cut into the lexemes whatever follows, so long as
that does not go on with a word or a number.  Words, numbers, quoted texts and symbols are spelled by
themselves, and expressions are put together from them.

## Main results

* `Lexer.Cuts.word`, `Lexer.Cuts.number`, `Lexer.Cuts.quoted`, `Lexer.Cuts.symbol`: single lexemes.
* `Arena.IsExpression.spells`: the text of an expression spells its lexemes.
-/

namespace StateGuard

/-! ## Classes of characters -/

namespace Text

theorem exists_range_of_inRanges {ranges : List (Nat × Nat)} {code : Nat}
    (h : inRanges ranges code = true) : ∃ r ∈ ranges, r.1 ≤ code ∧ code ≤ r.2 := by
  induction ranges with
  | nil => simp [inRanges] at h
  | cons r ranges ih =>
      rw [inRanges] at h
      split at h
      · simp at h
      · split at h
        · exact ⟨r, List.mem_cons_self, by omega, by omega⟩
        · obtain ⟨r', hMem, hIn⟩ := ih h
          exact ⟨r', List.mem_cons_of_mem r hMem, hIn⟩

/-- No blank character is a letter. -/
theorem isAlphabetic_of_isBlank {c : Char} (h : isBlank c = true) : isAlphabetic c = false := by
  have hAll : ∀ r ∈ blankRanges, ∀ k < r.2 + 1 - r.1,
      inRanges alphabeticRanges (r.1 + k) = false := by
    decide +kernel
  obtain ⟨r, hMem, hFrom, hTo⟩ := exists_range_of_inRanges h
  have hCode := hAll r hMem (c.toNat - r.1) (by omega)
  rwa [Nat.add_sub_cancel' hFrom] at hCode

theorem toNat_of_isDigit {c : Char} (h : c.isDigit = true) : 48 ≤ c.toNat ∧ c.toNat ≤ 57 := by
  simp only [Char.isDigit, Bool.and_eq_true, decide_eq_true_eq] at h
  exact h

end Text

namespace Lexer

theorem continuesWord_of_isDigit {c : Char} (h : c.isDigit = true) : continuesWord c = true := by
  obtain ⟨hFrom, hTo⟩ := Text.toNat_of_isDigit h
  have hNumeric : Text.isNumeric c = true := by
    unfold Text.isNumeric Text.numericRanges
    rw [Text.inRanges, if_neg (by omega), if_pos (by omega)]
  simp [continuesWord, Text.isAlphanumeric, hNumeric]

theorem continuesWord_of_continuesNumber {c : Char} (h : continuesNumber c = true) :
    continuesWord c = true := by
  rcases Bool.or_eq_true_iff.1 h with hDigit | hUnderscore
  · exact continuesWord_of_isDigit hDigit
  · simp [continuesWord, hUnderscore]

/-- A digit begins nothing but a number. -/
theorem not_startsWord_of_isDigit {c : Char} (h : c.isDigit = true) :
    startsWord c = false ∧ Text.isBlank c = false := by
  obtain ⟨hFrom, hTo⟩ := Text.toNat_of_isDigit h
  have hAlphabetic : Text.isAlphabetic c = false := by
    unfold Text.isAlphabetic Text.alphabeticRanges
    rw [Text.inRanges, if_pos (by omega)]
  have hBlank : Text.isBlank c = false := by
    unfold Text.isBlank Text.blankRanges
    simp only [Text.inRanges]
    grind
  refine ⟨?_, hBlank⟩
  have hUnderscore : c ≠ '_' := by
    rintro rfl
    revert h
    decide
  have hAt : c ≠ '@' := by
    rintro rfl
    revert h
    decide
  simp [startsWord, hAlphabetic, hUnderscore, hAt]

/-! ## Cutting one lexeme -/

/-- The characters are cut into the lexemes, wherever they stand. -/
def Cuts (cs : List Char) (ls : List Lexeme) : Prop :=
  ∀ start, ∃ stream, tokensFrom start cs = .ok stream ∧ stream.lexemes = ls

/-- A word or a number before the characters ends where they begin. -/
def Breaks (cs : List Char) : Prop := ∀ c, cs.head? = some c → continuesWord c = false

theorem triviaLength?_eq_zero {c : Char} {cs : List Char} (hBlank : Text.isBlank c = false)
    (hComment : c = '/' → cs.head? ≠ some '/' ∧ cs.head? ≠ some '*') :
    triviaLength? (c :: cs) = some 0 := by
  rw [triviaLength?]
  · simp [hBlank]
  · rintro rest rfl rfl
    simp at hComment
  · rintro rest rfl rfl
    simp at hComment

namespace Cuts

variable {cs rest text : List Char} {ls : List Lexeme} {c : Char} {lexeme : Lexeme}

theorem nil : Cuts [] [] := by
  intro start
  exact ⟨_, tokensFrom_of_isBlank (by simp) start, rfl⟩

theorem blank (hBlank : Text.isBlank c = true) (h : Cuts cs ls) : Cuts (c :: cs) ls := by
  intro start
  rw [tokensFrom_blank hBlank]
  exact h (start.advance c)

theorem space (h : Cuts cs ls) : Cuts (' ' :: cs) ls := h.blank (by decide)

theorem token (hTrivia : triviaLength? (c :: (text ++ rest)) = some 0)
    (hScan : scan c (text ++ rest) = .ok (lexeme, text.length)) (h : Cuts rest ls) :
    Cuts (c :: (text ++ rest)) (lexeme :: ls) := by
  intro start
  obtain ⟨stream, hStream, hLexemes⟩ := h (start.advanceAll (c :: text))
  refine ⟨⟨⟨lexeme, ⟨start, start.advanceAll (c :: text)⟩⟩ :: stream.tokens, stream.stop⟩, ?_, ?_⟩
  · rw [tokensFrom, hTrivia]
    dsimp only
    split
    · next hEnd => simp at hEnd
    · next c' rest' hDrop =>
        obtain ⟨rfl, rfl⟩ := List.cons.inj hDrop
        rw [hScan]
        simp only [List.take_left, List.drop_left, List.take_zero]
        rw [show (start.advanceAll []).advanceAll (c :: text) = start.advanceAll (c :: text) from rfl,
          hStream]
        rfl
  · rw [← hLexemes]
    rfl

end Cuts

/-- A run of characters ends where the rest breaks off. -/
theorem takeWhile_of_breaks {p : Char → Bool} {cs rest : List Char}
    (hWord : ∀ c, p c = true → continuesWord c = true) (hAll : ∀ c ∈ cs, p c = true)
    (hRest : Breaks rest) : (cs ++ rest).takeWhile p = cs := by
  have hStop : rest.takeWhile p = [] := by
    cases rest with
    | nil => rfl
    | cons c rest =>
        have hNot : p c ≠ true := by
          intro hc
          have hEnds := hRest c rfl
          simp [hWord c hc] at hEnds
        simp [hNot]
  rw [List.takeWhile_append_of_pos hAll, hStop, List.append_nil]

/-- What begins a word is neither blank nor a sign. -/
theorem plain_of_starts {c : Char} (h : (Text.isAlphabetic c || c == '_') = true) :
    Text.isBlank c = false ∧ c ≠ '/' ∧ c ≠ '@' ∧ c.isDigit = false := by
  have hNot : ∀ d, (Text.isAlphabetic d || d == '_') = false → c ≠ d := by
    rintro d hd rfl
    simp [h] at hd
  refine ⟨?_, hNot '/' (by decide), hNot '@' (by decide), ?_⟩
  · rw [← Bool.not_eq_true]
    intro hBlank
    rw [Text.isAlphabetic_of_isBlank hBlank, Bool.false_or, beq_iff_eq] at h
    subst h
    revert hBlank
    decide
  · rw [← Bool.not_eq_true]
    intro hDigit
    have hStarts := (not_startsWord_of_isDigit hDigit).1
    simp [startsWord] at hStarts
    simp [hStarts] at h

/-- The first character of a word, and the others. -/
theorem exists_cons_of_isWord {name : String} (h : isWord name = true) :
    ∃ c text, name.toList = c :: text ∧ (Text.isAlphabetic c || c == '_') = true ∧
      ∀ d ∈ text, continuesWord d = true := by
  unfold isWord at h
  split at h
  · simp at h
  · next c text hText =>
      simp only [Bool.and_eq_true, List.all_eq_true] at h
      exact ⟨c, text, hText, h⟩

theorem scanNumber_toDigits {n : Nat} {c : Char} {text rest : List Char}
    (hText : Nat.toDigits 10 n = c :: text) (hn : n ≤ maxInteger) (hRest : Breaks rest) :
    scanNumber c (text ++ rest) = .ok (.int n, text.length) := by
  have hDigits : ∀ d ∈ c :: text, d.isDigit = true := by
    intro d hd
    exact Nat.isDigit_of_mem_toDigits (by decide) (by decide) (hText ▸ hd)
  have hRun : (text ++ rest).takeWhile continuesNumber = text := by
    refine takeWhile_of_breaks (fun _ => continuesWord_of_continuesNumber) ?_ hRest
    intro d hd
    simp [continuesNumber, hDigits d (List.mem_cons_of_mem c hd)]
  have hFilter : (c :: text).filter (· ≠ '_') = c :: text := by
    rw [List.filter_eq_self]
    intro d hd
    rw [decide_eq_true_eq]
    rintro rfl
    exact absurd (hDigits '_' hd) (by decide)
  have hDecimal : Text.decimal? (c :: text) = some n := by
    have hValue : Nat.ofDigitChars 10 (c :: text) 0 = n := hText ▸ Nat.ofDigitChars_ten_toDigits
    rw [Nat.ofDigitChars_eq_foldl] at hValue
    rw [Text.decimal?, hValue]
    simpa using hDigits
  unfold scanNumber
  dsimp only
  rw [hRun, hFilter, hDecimal]
  simp [hn]

theorem scanText_eq {text : List Char} (hPlain : ∀ c ∈ text, c ≠ '"' ∧ c ≠ '\\' ∧ c ≠ '\n')
    (rest : List Char) : scanText (text ++ '"' :: rest) = .ok (text, text.length + 1) := by
  induction text with
  | nil => simp [scanText]
  | cons c text ih =>
      obtain ⟨hQuote, hEscape, hLine⟩ := hPlain c List.mem_cons_self
      have hRest := ih fun d hd => hPlain d (List.mem_cons_of_mem c hd)
      rw [List.cons_append, scanText.eq_def]
      split <;> simp_all

namespace Cuts

variable {rest : List Char} {ls : List Lexeme}

/-- **A word is cut off where it ends.** -/
theorem word {name : String} (hName : isWord name = true) (hRest : Breaks rest) (h : Cuts rest ls) :
    Cuts (name.toList ++ rest) (.word name :: ls) := by
  obtain ⟨c, text, hText, hFirst, hOthers⟩ := exists_cons_of_isWord hName
  obtain ⟨hBlank, hSlash, hAt, -⟩ := plain_of_starts hFirst
  have hStarts : startsWord c = true := by
    rw [startsWord, hFirst, Bool.true_or]
  have hRun : (text ++ rest).takeWhile continuesWord = text :=
    takeWhile_of_breaks (fun _ => id) hOthers hRest
  have hValue : String.ofList (c :: text) = name := by rw [← hText, String.ofList_toList]
  rw [hText]
  refine token (triviaLength?_eq_zero hBlank fun hc => absurd hc hSlash) ?_ h
  simp [scan, hStarts, scanWord, hRun, hAt, hValue]

/-- **A number is cut off where it ends.** -/
theorem number {n : Nat} (hn : n ≤ maxInteger) (hRest : Breaks rest) (h : Cuts rest ls) :
    Cuts ((toString n).toList ++ rest) (.int n :: ls) := by
  rw [Nat.toString_eq_ofList_toDigits, String.toList_ofList]
  cases hText : Nat.toDigits 10 n with
  | nil => simp at hText
  | cons c text =>
      have hFirst : c.isDigit = true :=
        Nat.isDigit_of_mem_toDigits (by decide) (by decide) (hText ▸ List.mem_cons_self)
      obtain ⟨hNotWord, hNotBlank⟩ := not_startsWord_of_isDigit hFirst
      refine token (triviaLength?_eq_zero hNotBlank ?_) ?_ h
      · rintro rfl
        exact absurd hFirst (by decide)
      · simp [scan, hNotWord, hFirst, scanNumber_toDigits hText hn hRest, Except.mapError]

/-- **A quoted text is cut off behind its closing quote.** -/
theorem quoted {value : String} (hValue : (Literal.str value).isReadable = true) (h : Cuts rest ls) :
    Cuts ('"' :: (value.toList ++ '"' :: rest)) (.text value :: ls) := by
  have hPlain : ∀ c ∈ value.toList, c ≠ '"' ∧ c ≠ '\\' ∧ c ≠ '\n' := by
    simpa [Literal.isReadable, and_assoc] using hValue
  have hStarts : startsWord '"' = false := by decide
  rw [List.append_cons]
  refine token (triviaLength?_eq_zero (by decide) (fun hc => absurd hc (by decide))) ?_ h
  rw [List.append_assoc, List.singleton_append]
  simp [scan, hStarts, scanText_eq hPlain rest]

end Cuts

/-! ## Symbols -/

/-- Whether a symbol ends before a character, which might make it a longer one or a comment. -/
def stopsBefore : Symbol → Char → Bool
  | .questionDot, c => !c.isDigit
  | .question, c => c != '.'
  | .assign, c => c != '=' && c != '>'
  | .bang, c => c != '='
  | .lt, c => c != '='
  | .gt, c => c != '='
  | .slash, c => c != '/' && c != '*'
  | _, _ => true

section Symbols

variable {which : Symbol} {c : Char} {text rest : List Char}

theorem plain_of_spelling (h : which.spelling.toList = c :: text) :
    startsWord c = false ∧ Text.isBlank c = false ∧ c.isDigit = false ∧ c ≠ '"' := by
  cases which
  all_goals
    simp [Symbol.spelling] at h
    obtain ⟨rfl, rfl⟩ := h
    decide +kernel

theorem not_comment_of_spelling (h : which.spelling.toList = c :: text)
    (hRest : ∀ d, rest.head? = some d → stopsBefore which d = true) (hSlash : c = '/') :
    (text ++ rest).head? ≠ some '/' ∧ (text ++ rest).head? ≠ some '*' := by
  cases which
  all_goals
    simp [Symbol.spelling] at h
    obtain ⟨rfl, rfl⟩ := h
  case slash =>
    constructor
    all_goals
      intro hHead
      exact absurd (hRest _ hHead) (by decide)
  all_goals exact absurd hSlash (by decide)

theorem scanSymbol?_of_spelling (h : which.spelling.toList = c :: text)
    (hRest : ∀ d, rest.head? = some d → stopsBefore which d = true) :
    scanSymbol? c (text ++ rest) = some (which, text.length) := by
  cases which
  all_goals
    simp [Symbol.spelling] at h
    obtain ⟨rfl, rfl⟩ := h
    rcases rest with _ | ⟨d, rest⟩
  all_goals simp_all [scanSymbol?, stopsBefore]

/-- **A symbol is cut off** unless the next character goes on with it. -/
theorem Cuts.symbol {ls : List Lexeme} (which : Symbol)
    (hRest : ∀ d, rest.head? = some d → stopsBefore which d = true) (h : Cuts rest ls) :
    Cuts (which.spelling.toList ++ rest) (.symbol which :: ls) := by
  cases hText : which.spelling.toList with
  | nil => cases which <;> simp [Symbol.spelling] at hText
  | cons c text =>
      obtain ⟨hWord, hBlank, hDigit, hQuote⟩ := plain_of_spelling hText
      refine token (triviaLength?_eq_zero hBlank (not_comment_of_spelling hText hRest)) ?_ h
      simp [scan, hWord, hDigit, hQuote, scanSymbol?_of_spelling hText hRest]

/-- The first lexeme of a text, when the text does not begin with a blank or a comment. -/
theorem exists_scan_of_cuts {ls : List Lexeme} {t : Lexeme} (h : Cuts (c :: rest) (t :: ls))
    (hTrivia : triviaLength? (c :: rest) = some 0) : ∃ n, scan c rest = .ok (t, n) := by
  obtain ⟨stream, hStream, hLexemes⟩ := h Position.origin
  rw [tokensFrom, hTrivia] at hStream
  dsimp only at hStream
  split at hStream
  · next hEnd => simp at hEnd
  · next c' rest' hDrop =>
      obtain ⟨rfl, rfl⟩ := List.cons.inj hDrop
      split at hStream
      · simp at hStream
      · next lexeme taken hScan =>
          split at hStream
          · simp at hStream
          · obtain rfl := Except.ok.inj hStream
            obtain ⟨rfl, -⟩ := List.cons.inj hLexemes
            exact ⟨taken, hScan⟩

/-- No expression begins with an equals sign. -/
theorem head_ne_of_opens {cs : List Char} {ls : List Lexeme} {t : Lexeme} (h : Cuts cs (t :: ls))
    (hOpens : t.opens = true) : cs.head? ≠ some '=' := by
  intro hHead
  obtain ⟨rest, rfl⟩ : ∃ rest, cs = '=' :: rest := by
    cases cs with
    | nil => simp at hHead
    | cons c cs => exact ⟨cs, by simpa using hHead⟩
  obtain ⟨n, hScan⟩ := exists_scan_of_cuts h
    (triviaLength?_eq_zero (by decide) fun hc => absurd hc (by decide))
  obtain ⟨which, m, hSymbol, hNot⟩ : ∃ which m, scanSymbol? '=' rest = some (which, m) ∧
      (Lexeme.symbol which).opens = false := by
    simp only [scanSymbol?]
    split
    · exact ⟨.eqEq, 1, rfl, by decide⟩
    · exact ⟨.arrow, 1, rfl, by decide⟩
    · exact ⟨.assign, 0, rfl, by decide⟩
  have hWord : startsWord '=' = false := by decide
  have hSign : scan '=' rest = .ok (.symbol which, m) := by simp [scan, hWord, hSymbol]
  obtain ⟨rfl, -⟩ := Prod.mk.inj (Except.ok.inj (hScan.symm.trans hSign))
  simp [hNot] at hOpens

theorem breaks_cons (h : continuesWord c = false) : Breaks (c :: rest) := by
  rintro d hd
  obtain rfl := Option.some.inj hd
  exact h

theorem breaks_space (rest : List Char) : Breaks (' ' :: rest) := breaks_cons (by decide)

theorem breaks_spelling (which : Symbol) (rest : List Char) :
    Breaks (which.spelling.toList ++ rest) := by
  cases which
  all_goals
    simp only [Symbol.spelling, String.reduceToList, List.cons_append]
    exact breaks_cons (by decide +kernel)

end Symbols

end Lexer

/-! ## Spelling -/

open Lexer

/-- The text is cut into the lexemes, whatever follows it without going on with a word or a number. -/
def Spells (text : String) (ls : List Lexeme) : Prop :=
  ∀ rest ms, Breaks rest → Cuts rest ms → Cuts (text.toList ++ rest) (ls ++ ms)

namespace Spells

variable {s t : String} {ls ms : List Lexeme}

theorem word {name : String} (h : isWord name = true) : Spells name [.word name] :=
  fun _ _ hBreaks hCuts => Cuts.word h hBreaks hCuts

theorem literal {value : Literal} (h : value.isReadable = true) :
    Spells value.render [value.lexeme] := by
  cases value with
  | bool value => cases value <;> exact word (by decide)
  | null => exact word (by decide)
  | int value =>
      intro rest ms hBreaks hCuts
      simp only [Literal.isReadable, Bool.and_eq_true, decide_eq_true_eq] at h
      obtain ⟨n, rfl⟩ := Int.eq_ofNat_of_zero_le h.1
      exact Cuts.number (Int.ofNat_le.1 h.2) hBreaks hCuts
  | str value =>
      intro rest ms hBreaks hCuts
      have hText := Cuts.quoted h hCuts
      simpa [Literal.render, Literal.lexeme] using hText

end Spells

/-! ## The texts of nodes -/

/-- The text of an argument, given that of its value. -/
def Argument.text (arg : Argument String) : String :=
  (match arg.name with
    | some name => name ++ ": "
    | none => "") ++ arg.value

/-- The text of a construct, given the texts of its parts. -/
def Node.text : Node String → String
  | .identifier name => name
  | .this => "this"
  | .literal value => value.render
  | .memberAccess receiver member => receiver ++ "." ++ member
  | .conditionalAccess receiver rest => receiver ++ "?" ++ rest
  | .memberBinding member => "." ++ member
  | .invocation callee args =>
    callee ++ "(" ++ String.intercalate ", " (args.map (·.text)) ++ ")"
  | .outVariable name type =>
    "out " ++ (match type with
      | some type => type.shortDisplay
      | none => "var") ++ " " ++ name
  | .unary op operand => op.symbol ++ operand
  | .binary op left right => left ++ " " ++ op.symbol ++ " " ++ right
  | .isPattern operand test => operand ++ test.render
  | .conditional condition whenTrue whenFalse =>
    condition ++ " ? " ++ whenTrue ++ " : " ++ whenFalse
  | .lambda params body isAsync =>
    (if isAsync then "async " else "") ++ renderParameters params ++ " => " ++ body
  | .await operand => "await " ++ operand
  | .parenthesized inner => "(" ++ inner ++ ")"
  | .parameter name _ => name
  | _ => ellipsis

namespace Arena

variable {arena : Arena} {i : arena.Id}

theorem filterMap_parameterName? {params : List arena.Id}
    (hParams : ∀ p ∈ params, ∃ name type, arena.node p = .parameter name type) :
    params.filterMap arena.parameterName? = params.map arena.render := by
  rw [← List.filterMap_eq_map]
  refine List.filterMap_congr fun p hp => ?_
  obtain ⟨name, type, hNode⟩ := hParams p hp
  have hText : arena.render p = name := by
    rw [render]
    split <;> simp_all
  simp only [parameterName?, hNode, Function.comp_apply, hText]

/-- **The text of a node is put together from the texts of its parts,** given that the parameters of a
lambda are parameters. -/
theorem render_eq (hParams : ∀ params body isAsync, arena.node i = .lambda params body isAsync →
      ∀ p ∈ params, ∃ name type, arena.node p = .parameter name type) :
    arena.render i = ((arena.node i).map arena.render).text := by
  rw [render]
  split
  case h_7 callee args hNode =>
    rw [hNode, Node.map_invocation, Node.text, List.map_map]
    simp only [List.map_subtype, List.unattach_attach]
    rfl
  case h_8 name type hNode =>
    cases type
    all_goals
      dsimp only
      rw [hNode]
      rfl
  case h_13 params body isAsync hNode =>
    rw [hNode, filterMap_parameterName? (hParams params body isAsync hNode), Node.map_lambda,
      Node.text]
  case h_17 =>
    cases hNode : arena.node i with
    | localDeclaration name type init => cases init <;> rfl
    | returnStatement value => cases value <;> rfl
    | ifStatement condition thenBranch elseBranch => cases elseBranch <;> rfl
    | compilationUnit | method | block | expressionStatement => rfl
    | _ => simp_all
  all_goals
    rename_i hNode
    rw [hNode]
    rfl

end Arena

/-! ## Expressions -/

namespace Slot

/-- The text of an expression in its place, with the question mark before a bound one. -/
def text : Slot → String → String
  | .bound, text => "?" ++ text
  | _, text => text

/-- The lexemes of an expression in its place.  The question mark and the dot of a bound one are one
lexeme. -/
def lexemes : Slot → List Lexeme → List Lexeme
  | .bound, ls => .symbol .questionDot :: ls
  | _, ls => ls

theorem text_append (slot : Slot) (s t : String) : slot.text (s ++ t) = slot.text s ++ t := by
  cases slot <;> simp [text, String.append_assoc]

theorem lexemes_append (slot : Slot) (ls ms : List Lexeme) :
    slot.lexemes (ls ++ ms) = slot.lexemes ls ++ ms := by
  cases slot <;> rfl

end Slot

namespace Spells

/-- Texts with commas between them. -/
theorem separated {α : Type} {xs : List α} {text : α → String} {ls : α → List Lexeme}
    (h : ∀ x ∈ xs, Spells (text x) (ls x)) :
    Spells (String.intercalate ", " (xs.map text)) (separated (xs.map ls)) := by
  intro rest ms hBreaks hCuts
  induction xs with
  | nil => simpa using hCuts
  | cons x xs ih =>
      have hFirst := h x List.mem_cons_self
      cases xs with
      | nil => simpa using hFirst rest ms hBreaks hCuts
      | cons y ys =>
          have hOthers := ih fun z hz => h z (List.mem_cons_of_mem x hz)
          have hComma := Cuts.symbol .comma (by simp [stopsBefore]) hOthers.space
          have hAll := hFirst _ _ (breaks_spelling .comma _) hComma
          simpa [separated_cons_cons, String.intercalate_cons_cons, Symbol.spelling] using hAll

/-- A word and a space after it. -/
theorem word_space (name : String) {rest : List Char} {ms : List Lexeme} (h : isWord name = true)
    (hCuts : Cuts rest ms) : Cuts (name.toList ++ ' ' :: rest) (.word name :: ms) :=
  Cuts.word h (breaks_space rest) hCuts.space

/-- A symbol before a text that does not go on with it. -/
theorem after_symbol {text : String} {ls : List Lexeme} (which : Symbol) (h : Spells text ls)
    (hStops : ∀ rest, Breaks rest → ∀ ms, Cuts rest ms → ∀ d,
      (text.toList ++ rest).head? = some d → stopsBefore which d = true) :
    Spells (which.spelling ++ text) (.symbol which :: ls) := by
  intro rest ms hBreaks hCuts
  have hText := h rest ms hBreaks hCuts
  have hAll := Cuts.symbol which (hStops rest hBreaks ms hCuts) hText
  simpa using hAll

theorem test {test : Pattern} (h : test.isReadable = true) :
    Spells test.render (.word "is" :: test.lexemes) := by
  intro rest ms hBreaks hCuts
  cases test with
  | null =>
      have hNull : Cuts ("null".toList ++ rest) (.word "null" :: ms) :=
        Cuts.word (by decide) hBreaks hCuts
      simpa [Pattern.render, Pattern.lexemes] using
        (word_space "is" (by decide) hNull).space
  | notNull =>
      have hNull : Cuts ("null".toList ++ rest) (.word "null" :: ms) :=
        Cuts.word (by decide) hBreaks hCuts
      have hNot := word_space "not" (by decide) hNull
      simpa [Pattern.render, Pattern.lexemes] using
        (word_space "is" (by decide) hNot).space
  | literal value =>
      have hReadable : value.isReadable = true := by cases value <;> simp_all [Pattern.isReadable]
      have hValue := literal hReadable rest ms hBreaks hCuts
      simpa [Pattern.render, Pattern.lexemes] using
        (word_space "is" (by decide) hValue).space

theorem argument {name? : Option String} {value : String} {ls : List Lexeme}
    (hName : ∀ name, name? = some name → isName name = true) (hValue : Spells value ls) :
    Spells (Argument.text ⟨name?, value⟩) (Argument.lexemes ⟨name?, ls⟩) := by
  intro rest ms hBreaks hCuts
  have hCutValue := hValue rest ms hBreaks hCuts
  cases name? with
  | none => simpa [Argument.text, Argument.lexemes] using hCutValue
  | some name =>
      have hColon := Cuts.symbol .colon (by simp [stopsBefore]) hCutValue.space
      have hAll := Cuts.word (isWord_of_isName (hName name rfl)) (breaks_spelling .colon _) hColon
      simpa [Argument.text, Argument.lexemes, Symbol.spelling] using hAll

/-- A text between parentheses. -/
theorem parens {text : String} {ls : List Lexeme} (h : Spells text ls) :
    Spells ("(" ++ text ++ ")") (.symbol .leftParen :: (ls ++ [.symbol .rightParen])) := by
  intro rest ms hBreaks hCuts
  have hClose := Cuts.symbol .rightParen (by simp [stopsBefore]) hCuts
  have hText := h _ _ (breaks_spelling .rightParen rest) hClose
  have hOpen := Cuts.symbol .leftParen (by simp [stopsBefore]) hText
  simpa [Symbol.spelling] using hOpen

theorem parameters {α : Type} {params : List α} {text : α → String} {ls : α → List Lexeme}
    (h : ∀ p ∈ params, Spells (text p) (ls p)) :
    Spells (renderParameters (params.map text)) (parameterLexemes (params.map ls)) := by
  have hList := parens (separated h)
  match params with
  | [] => simpa only [List.map_nil, renderParameters, parameterLexemes] using hList
  | [p] => exact h p List.mem_cons_self
  | p :: q :: params => simpa only [List.map_cons, renderParameters, parameterLexemes] using hList

/-! ### Constructs -/

variable {s t u : String} {ls ms ns : List Lexeme}

theorem symbol_eq_spelling (op : BinaryOp) : op.symbol = op.sign.spelling := by
  cases op <;> rfl

theorem unarySymbol_eq_spelling (op : UnaryOp) : op.symbol = op.sign.spelling := by
  cases op <;> rfl

theorem memberBinding {member : String} (h : isName member = true) :
    Spells ("?" ++ ("." ++ member)) [.symbol .questionDot, .word member] := by
  obtain ⟨c, text, hText, hFirst, -⟩ := exists_cons_of_isWord (isWord_of_isName h)
  have hDigit := (plain_of_starts hFirst).2.2.2
  have hBinding : Spells (Symbol.questionDot.spelling ++ member)
      [.symbol .questionDot, .word member] := by
    refine after_symbol _ (word (isWord_of_isName h)) ?_
    intro rest _ _ _ d hd
    simp only [hText, List.cons_append, List.head?_cons, Option.some.injEq] at hd
    simp [stopsBefore, ← hd, hDigit]
  rw [show Symbol.questionDot.spelling = "?" ++ "." from rfl, String.append_assoc] at hBinding
  exact hBinding

/-- A sign is not taken together with what follows, since no expression begins with an equals sign. -/
theorem unary {op : UnaryOp} {first : Lexeme} (hOpens : first.opens = true)
    (h : Spells s (first :: ls)) :
    Spells (Node.text (.unary op s)) (Node.lexemes (.unary op (first :: ls))) := by
  have hAll : Spells (op.sign.spelling ++ s) (.symbol op.sign :: first :: ls) := by
    refine after_symbol _ h ?_
    intro rest hBreaks ms hCuts d hd
    have hEquals := head_ne_of_opens (h rest ms hBreaks hCuts) hOpens
    rw [hd] at hEquals
    cases op <;> simp_all [UnaryOp.sign, stopsBefore]
  rw [← unarySymbol_eq_spelling] at hAll
  exact hAll

theorem await (h : Spells s ls) : Spells (Node.text (.await s)) (Node.lexemes (.await ls)) := by
  intro rest ms hBreaks hCuts
  have hAll := word_space "await" (by decide) (h rest ms hBreaks hCuts)
  simpa [Node.text, Node.lexemes] using hAll

theorem binary {op : BinaryOp} (hLeft : Spells s ls) (hRight : Spells t ms) :
    Spells (Node.text (.binary op s t)) (Node.lexemes (.binary op ls ms)) := by
  intro rest ns hBreaks hCuts
  have hCutRight := hRight rest ns hBreaks hCuts
  have hSign := Cuts.symbol op.sign (by cases op <;> simp [BinaryOp.sign, stopsBefore]) hCutRight.space
  have hAll := hLeft _ _ (breaks_space _) hSign.space
  simpa [Node.text, Node.lexemes, symbol_eq_spelling] using hAll

theorem conditional (hCondition : Spells s ls) (hTrue : Spells t ms) (hFalse : Spells u ns) :
    Spells (Node.text (.conditional s t u)) (Node.lexemes (.conditional ls ms ns)) := by
  intro rest os hBreaks hCuts
  have hCutFalse := hFalse rest os hBreaks hCuts
  have hColon := Cuts.symbol .colon (by simp [stopsBefore]) hCutFalse.space
  have hCutTrue := hTrue _ _ (breaks_space _) hColon.space
  have hQuestion := Cuts.symbol .question (by simp [stopsBefore]) hCutTrue.space
  have hAll := hCondition _ _ (breaks_space _) hQuestion.space
  simpa [Node.text, Node.lexemes, Symbol.spelling] using hAll

theorem lambda {α : Type} {params : List α} {text : α → String} {lexemes : α → List Lexeme}
    (hParams : ∀ p ∈ params, Spells (text p) (lexemes p)) (hBody : Spells s ls) (isAsync : Bool) :
    Spells (Node.text (.lambda (params.map text) s isAsync))
      (Node.lexemes (.lambda (params.map lexemes) ls isAsync)) := by
  intro rest ms hBreaks hCuts
  have hCutBody := hBody rest ms hBreaks hCuts
  have hArrow := Cuts.symbol .arrow (by simp [stopsBefore]) hCutBody.space
  have hHead := parameters hParams _ _ (breaks_space _) hArrow.space
  cases isAsync with
  | false => simpa [Node.text, Node.lexemes, Symbol.spelling] using hHead
  | true =>
      have hAll := word_space "async" (by decide) hHead
      simpa [Node.text, Node.lexemes, Symbol.spelling] using hAll

theorem outVariable {name : String} (h : isName name = true) :
    Spells (Node.text (.outVariable name none)) (Node.lexemes (.outVariable name none)) := by
  intro rest ms hBreaks hCuts
  have hWord := Cuts.word (isWord_of_isName h) hBreaks hCuts
  have hVar := word_space "var" (by decide) hWord
  have hAll := word_space "out" (by decide) hVar
  simpa [Node.text, Node.lexemes] using hAll

end Spells

namespace Arena.IsExpression

variable {arena : Arena} {slot : Slot} {i : arena.Id}

/-- A member access or a call after an expression in any place. -/
theorem spells_after {receiver : arena.Id} {s : String} {ls : List Lexeme}
    (hReceiver : Spells (slot.text (arena.render receiver)) (slot.lexemes (arena.lexemes receiver)))
    (hAfter : Spells s ls) (hBreaks : ∀ rest, Breaks (s.toList ++ rest)) :
    Spells (slot.text (arena.render receiver ++ s)) (slot.lexemes (arena.lexemes receiver ++ ls)) := by
  intro rest ms hRest hCuts
  have hAll := hReceiver _ _ (hBreaks rest) (hAfter rest ms hRest hCuts)
  rw [Slot.text_append, Slot.lexemes_append]
  simpa using hAll

/-- **The text of an expression spells its lexemes.** -/
theorem spells (h : arena.IsExpression slot i) :
    Spells (slot.text (arena.render i)) (slot.lexemes (arena.lexemes i)) := by
  induction h with
  | identifier hNode hName =>
      rw [render_eq (by simp [hNode]), lexemes_eq hNode, hNode]
      exact Spells.word (isWord_of_isName hName)
  | this hNode =>
      rw [render_eq (by simp [hNode]), lexemes_eq hNode, hNode]
      have hThis : isWord "this" = true := by decide
      exact Spells.word hThis
  | literal hNode hValue =>
      rw [render_eq (by simp [hNode]), lexemes_eq hNode, hNode]
      exact Spells.literal hValue
  | parenthesized hNode _ ih =>
      rw [render_eq (by simp [hNode]), lexemes_eq hNode, hNode]
      exact Spells.parens ih
  | memberBinding hNode hMember =>
      rw [render_eq (by simp [hNode]), lexemes_eq hNode, hNode]
      exact Spells.memberBinding hMember
  | @memberAccess slot i receiver member hNode _ _ hMember _ ih =>
      rw [render_eq (by simp [hNode]), lexemes_eq hNode, hNode]
      have hMember : Spells ("." ++ member) [.symbol .dot, .word member] :=
        Spells.after_symbol .dot (Spells.word (isWord_of_isName hMember)) (by simp [stopsBefore])
      have hAll := spells_after ih hMember fun rest => by
        simpa using breaks_cons (by decide)
      rw [← String.append_assoc] at hAll
      exact hAll
  | @conditionalAccess slot i receiver rest hNode _ _ _ _ ihReceiver ihRest =>
      rw [render_eq (by simp [hNode]), lexemes_eq hNode, hNode]
      have hAll := spells_after ihReceiver ihRest fun rest => by
        simpa [Slot.text] using breaks_cons (by decide)
      simp only [Slot.text, ← String.append_assoc] at hAll
      exact hAll
  | @invocation slot i callee args hNode _ _ hNames _ _ ihCallee ihArgs =>
      rw [render_eq (by simp [hNode]), lexemes_eq hNode, hNode, Node.map_invocation,
        Node.map_invocation, Node.text, Node.lexemes, List.map_map, List.map_map]
      have hArgs := Spells.parens (Spells.separated fun a ha =>
        Spells.argument (hNames a ha) (ihArgs a ha))
      have hAll := spells_after ihCallee hArgs fun rest => by
        simpa using breaks_cons (by decide)
      simp only [← String.append_assoc] at hAll
      exact hAll
  | @unary i operand op hNode hOperand _ ih =>
      rw [render_eq (by simp [hNode]), lexemes_eq hNode, hNode]
      obtain ⟨first, ls, hLexemes, hOpens, -⟩ := hOperand.begins_lexemes
      change Spells (Node.text (.unary op (arena.render operand)))
        (Node.lexemes (.unary op (arena.lexemes operand)))
      rw [hLexemes]
      exact Spells.unary hOpens (hLexemes ▸ ih)
  | await hNode _ _ ih =>
      rw [render_eq (by simp [hNode]), lexemes_eq hNode, hNode]
      exact Spells.await ih
  | binary hNode _ _ _ _ ihLeft ihRight =>
      rw [render_eq (by simp [hNode]), lexemes_eq hNode, hNode]
      exact Spells.binary ihLeft ihRight
  | @isPattern i operand test hNode _ _ hTest ih =>
      rw [render_eq (by simp [hNode]), lexemes_eq hNode, hNode]
      refine spells_after ih (Spells.test hTest) fun rest => ?_
      cases test <;> simpa [Pattern.render] using breaks_space _
  | conditional hNode _ _ _ _ ihCondition ihTrue ihFalse =>
      rw [render_eq (by simp [hNode]), lexemes_eq hNode, hNode]
      exact Spells.conditional ihCondition ihTrue ihFalse
  | @lambda i body params isAsync hNode hParams _ ih =>
      have hNames : ∀ p ∈ params, Spells (arena.render p) (arena.lexemes p) := by
        intro p hp
        obtain ⟨name, hParam, hName⟩ := hParams p hp
        rw [render_eq (by simp [hParam]), lexemes_eq hParam, hParam]
        exact Spells.word (isWord_of_isName hName)
      rw [render_eq, lexemes_eq hNode, hNode, Node.map_lambda, Node.map_lambda]
      · exact Spells.lambda hNames ih isAsync
      · intro params' body' isAsync' hNode' p hp
        obtain ⟨rfl, -, -⟩ : params = params' ∧ body = body' ∧ isAsync = isAsync' := by
          simpa [hNode] using hNode'
        obtain ⟨name, hParam, -⟩ := hParams p hp
        exact ⟨name, none, hParam⟩
  | value _ ih => exact ih
  | outVariable hNode hName =>
      rw [render_eq (by simp [hNode]), lexemes_eq hNode, hNode]
      exact Spells.outVariable hName

end Arena.IsExpression

end StateGuard
