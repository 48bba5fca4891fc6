import StateGuard.Proofs.Source.Extents
import StateGuard.Proofs.Source.Postorder
import StateGuard.Proofs.Source.Tokens

/-!
# Reading a text ends at a place of the text

Reading is a total function; what remains to be said is where it ends.  A text either has a tree or a
fault of kind `parse` that names the file and one of its lines.  On the way nothing is looked up outside
the text or outside its tokens: a scanner takes no more characters than there are, the places that terms
and errors name are places of the text, and the counter of open parentheses is never lowered below zero.
At the end of the text every item that the grammar repeats fails, so no repetition goes on there.

## Main results

* `Parser.closing?_eq`: the look-ahead for a lambda never lowers its counter below zero.
* `Parser.fails_at_end`: a parser that has to take a lexeme fails at the end.
* `Parser.extent_of_compilationUnit`, `Parser.left_le_of_compilationUnit_error`: terms and errors lie
  within the tokens.
* `Tree.ofSource_ends_located`: reading a text ends with a tree or with a located fault.
-/

namespace StateGuard

namespace Parser

/-! ## The counter of open parentheses -/

/-- The look-ahead past closing parentheses with a counter that must not go below zero: there is no
answer if it would.  It begins at zero before the first parenthesis. -/
def closing? : Nat → List Lexeme → Option Bool
  | _, [] => some false
  | depth, .symbol .leftParen :: ts => closing? (depth + 1) ts
  | 0, .symbol .rightParen :: _ => none
  | depth + 1, .symbol .rightParen :: ts =>
    if depth = 0 then some (ts.head? == some (.symbol .arrow)) else closing? depth ts
  | depth, _ :: ts => closing? depth ts

/-- **The counter never goes below zero,** and both look-aheads agree. -/
theorem closing?_eq (depth : Nat) (ts : List Lexeme) :
    closing? (depth + 1) ts = some (arrowAfterClosing (depth + 1) ts) := by
  induction ts generalizing depth with
  | nil => rfl
  | cons t ts ih =>
      by_cases hLeft : t = .symbol .leftParen
      · subst hLeft
        exact ih (depth + 1)
      · by_cases hRight : t = .symbol .rightParen
        · subst hRight
          cases depth with
          | zero => rfl
          | succ depth => simpa [closing?, arrowAfterClosing] using ih depth
        · rw [closing?, arrowAfterClosing, ih]
          all_goals simp_all

/-! ## The end of the text -/

/-- **A parser that has to take a lexeme fails at the end.** -/
theorem fails_at_end {α : Type} (read : (ts : List Lexeme) → Attempt (Parsed ts.length α)) :
    ∃ e, read [] = .error e := by
  cases hRead : read [] with
  | error e => exact ⟨e, rfl⟩
  | ok r => exact absurd r.fits (Nat.not_lt_zero _)

/-! ## Places within the tokens -/

section Unit

variable {resolve : String → String} {ts : List Lexeme}

theorem compilationUnit_eq_ok {unit : Term} (h : compilationUnit resolve ts = .ok unit) :
    ∃ all, members resolve ts = .ok all ∧
      unit = spanning ts.length (.compilationUnit all) [] := by
  obtain ⟨all, hAll, h⟩ := exists_of_bind_eq_ok h
  exact ⟨all, hAll, (Except.ok.inj h).symm⟩

/-- A grammatical error shows within the tokens, and there is one. -/
theorem left_le_of_compilationUnit_error {e : ParseError}
    (h : compilationUnit resolve ts = .error e) : e.left ≤ ts.length ∧ ts ≠ [] := by
  cases hAll : members resolve ts with
  | error e' =>
      obtain rfl : e' = e := by simpa [compilationUnit, hAll, Bind.bind, Except.bind] using h
      exact left_le_of_members_error resolve ts hAll
  | ok all => simp [compilationUnit, hAll, Bind.bind, Except.bind, pure, Except.pure] at h

/-- A term in a row lies between the places where the row begins and ends, and so do the terms in
it. -/
theorem extent_of_mem_postorder {before after : Nat} {all : List Term}
    (h : Term.InOrder before all after) {m t : Term} (hm : m ∈ all) (ht : t ∈ m.postorder) :
    t.extent.before ≤ before ∧ after ≤ t.extent.after ∧ t.extent.after < t.extent.before := by
  induction m using Term.induction_parts generalizing before after all with
  | step m ih =>
      obtain ⟨hParts, hTight⟩ := Term.isNested_iff.1 (h.nested m hm)
      have hOuter := h.spaced.bounds.2 m hm
      rw [Term.postorder_eq, List.mem_append, List.mem_flatMap, List.mem_singleton] at ht
      rcases ht with ⟨c, hc, ht⟩ | rfl
      · have hInner := ih c hc ⟨hTight.spaced, hParts⟩ hc ht
        omega
      · exact ⟨hOuter.1, hOuter.2, hTight.covers⟩

/-- **The terms of a unit lie within its lexemes,** and each covers some of them; the unit itself does
if there are any. -/
theorem extent_of_compilationUnit {unit t : Term} (h : compilationUnit resolve ts = .ok unit)
    (ht : t ∈ unit.postorder) (hSome : ts ≠ []) :
    t.extent.after < t.extent.before ∧ t.extent.before ≤ ts.length := by
  obtain ⟨all, hAll, rfl⟩ := compilationUnit_eq_ok h
  have hPos := List.length_pos_iff.2 hSome
  rw [Term.postorder_eq, List.mem_append, List.mem_flatMap, List.mem_singleton] at ht
  rcases ht with ⟨m, hm, ht⟩ | rfl
  · have := extent_of_mem_postorder (inOrder_members resolve ts hAll) hm ht
    omega
  · exact ⟨hPos, Nat.le_refl _⟩

end Unit

end Parser

/-! ## Lines -/

namespace TokenStream

variable {source : String} {stream : TokenStream}

/-- The place where so many tokens are left is a place of the text. -/
theorem exists_stretch_position (h : TokenStream.ofSource source = .ok stream) (left : Nat) :
    ∃ before, before <+: source.toList ∧
      stream.position left = Position.origin.advanceAll before := by
  have hCut := Lexer.isCut_tokensFrom h
  unfold position
  split
  · next token hToken =>
      exact (hCut.exists_stretch (List.mem_of_getElem? hToken)).1
  · exact ⟨source.toList, List.prefix_refl _, hCut.stop_eq⟩

/-- A text of newlines has no tokens. -/
theorem ofSource_newlines (h : ∀ c ∈ source.toList, c = '\n') :
    TokenStream.ofSource source = .ok ⟨[], Position.origin.advanceAll source.toList⟩ := by
  refine Lexer.tokensFrom_of_isBlank ?_ Position.origin
  intro c hc
  rw [h c hc]
  decide

end TokenStream

/-- A text that is not all newlines has fewer newlines than characters. -/
theorem count_newline_lt {source : String} (h : ¬ ∀ c ∈ source.toList, c = '\n') :
    source.toList.count '\n' < source.length := by
  refine Nat.lt_of_le_of_ne List.count_le_length ?_
  intro hAll
  exact h fun c hc => (List.count_eq_length.1 hAll c hc).symm

/-- The fault is about the text of a file and names the file and one of its lines, which fits into a
word of 32 bits. -/
structure Fault.IsLocatedIn (fault : Fault) (file source : String) : Prop where
  kind_eq : fault.kind = .parse
  file_eq : fault.file = some file
  line : ∃ line, fault.line = some line ∧ 1 ≤ line ∧
    line ≤ 1 + source.toList.count '\n' ∧ line < Word.capacity 32

/-- A fault at a place of a text is located in it. -/
theorem Fault.isLocatedIn_of_stretch {file source message : String} {before : List Char} {line : Nat}
    (hShort : source.length < Word.capacity 32) (hText : ¬ ∀ c ∈ source.toList, c = '\n')
    (hBefore : before <+: source.toList) (hLine : line = (Position.origin.advanceAll before).line) :
    (((Fault.of .parse message).inFile file).onLine line).IsLocatedIn file source := by
  refine ⟨rfl, rfl, line, rfl, ?_⟩
  have hCount : before.count '\n' ≤ source.toList.count '\n' := hBefore.sublist.count_le _
  have hFew := count_newline_lt hText
  rw [Position.line_advanceAll] at hLine
  simp only [Position.origin] at hLine
  omega

namespace Tree

/-- **Reading a text ends with a tree or with a located fault.**  A lexical error is located as well.
No scanner takes more characters than there are; the terms that are read and the errors that stop the
reading lie within the tokens; the counter of the look-ahead never goes below zero; and what the grammar
repeats fails at the end of the text. -/
theorem ofSource_ends_located (resolve : String → String) (file source : String)
    (hShort : source.length < Word.capacity 32) :
    ((∃ tree, Tree.ofSource resolve file source = .ok tree) ∨
      ∃ fault, Tree.ofSource resolve file source = .error fault ∧ fault.IsLocatedIn file source) ∧
    (∀ e, TokenStream.ofSource source = .error e → (e.toFault file).IsLocatedIn file source) ∧
    ((∀ cs n, Lexer.triviaLength? cs = some n → n ≤ cs.length) ∧
      (∀ c cs lexeme n, Lexer.scan c cs = .ok (lexeme, n) → n ≤ cs.length) ∧
      ∀ c cs cause n, Lexer.scan c cs = .error (cause, n) → n ≤ (c :: cs).length) ∧
    (∀ stream, TokenStream.ofSource source = .ok stream →
      (∀ e, Parser.compilationUnit resolve stream.lexemes = .error e →
        e.left ≤ stream.tokens.length) ∧
      ∀ unit, Parser.compilationUnit resolve stream.lexemes = .ok unit → stream.tokens ≠ [] →
        ∀ t ∈ unit.postorder,
          t.extent.after < t.extent.before ∧ t.extent.before ≤ stream.tokens.length) ∧
    (∀ ts, Parser.closing? 0 (.symbol .leftParen :: ts) =
      some (Parser.startsParameters (.symbol .leftParen :: ts))) ∧
    ((∃ e, Parser.member resolve [] = .error e) ∧ (∃ e, Parser.statement resolve [] = .error e) ∧
      (∃ e, Parser.expression resolve [] = .error e) ∧ (∃ e, Parser.argument resolve [] = .error e) ∧
      (∃ e, Parser.typeRef resolve [] = .error e) ∧ (∃ e, Parser.pattern [] = .error e) ∧
      (∃ e, Parser.lambdaParameters resolve [] = .error e) ∧
      ∃ e, Parser.parameters resolve [] = .error e) := by
  have hLexical : ∀ e, TokenStream.ofSource source = .error e →
      (e.toFault file).IsLocatedIn file source := by
    intro e he
    obtain ⟨before, hBefore, hLine⟩ := Lexer.exists_stretch_of_error he
    refine Fault.isLocatedIn_of_stretch hShort ?_ hBefore hLine
    intro hLines
    simp [TokenStream.ofSource_newlines hLines] at he
  have hLengths : ∀ stream : TokenStream, stream.lexemes.length = stream.tokens.length := by
    simp [TokenStream.lexemes]
  refine ⟨?_, hLexical, ?_, ?_, ?_, ?_⟩
  · rcases ofSource_cases resolve file source with
      ⟨e, he, hFault⟩ | ⟨stream, e, hStream, he, hFault⟩ | ⟨_, _, tree, _, _, _, hTree⟩
    · exact .inr ⟨_, hFault, hLexical e he⟩
    · refine .inr ⟨_, hFault, ?_⟩
      obtain ⟨before, hBefore, hPosition⟩ := TokenStream.exists_stretch_position hStream e.left
      refine Fault.isLocatedIn_of_stretch hShort ?_ hBefore (congrArg Position.line hPosition)
      intro hLines
      rw [TokenStream.ofSource_newlines hLines] at hStream
      obtain rfl := Except.ok.inj hStream
      exact (Parser.left_le_of_compilationUnit_error he).2 rfl
    · exact .inl ⟨tree, hTree⟩
  · exact ⟨fun _ _ => Lexer.length_le_of_triviaLength?, fun _ _ _ _ => Lexer.length_le_of_scan,
      fun _ _ _ _ => Lexer.length_le_of_scan_error⟩
  · intro stream _
    rw [← hLengths stream]
    refine ⟨fun e he => (Parser.left_le_of_compilationUnit_error he).1, ?_⟩
    intro unit hUnit hSome t ht
    exact Parser.extent_of_compilationUnit hUnit ht (by simpa [TokenStream.lexemes] using hSome)
  · exact fun ts => Parser.closing?_eq 0 ts
  · exact ⟨Parser.fails_at_end _, Parser.fails_at_end _, Parser.fails_at_end _,
      Parser.fails_at_end _, Parser.fails_at_end _, Parser.fails_at_end _, Parser.fails_at_end _,
      Parser.fails_at_end _⟩

/-- A call that is not closed is reported on the second of three lines. -/
theorem unclosed_call_is_located :
    "void f() \x7b\n  g(a => ;\n".length < Word.capacity 32 ∧
      ∃ fault, Tree.ofSource id "unclosed.cs" "void f() \x7b\n  g(a => ;\n" = .error fault ∧
        fault.IsLocatedIn "unclosed.cs" "void f() \x7b\n  g(a => ;\n" ∧ fault.line = some 2 := by
  have hShort : "void f() \x7b\n  g(a => ;\n".length < Word.capacity 32 := by decide
  refine ⟨hShort, ?_⟩
  have hLine : (match Tree.ofSource id "unclosed.cs" "void f() \x7b\n  g(a => ;\n" with
      | .error fault => fault.line
      | .ok _ => none) = some 2 := by
    decide +kernel
  rcases (ofSource_ends_located id "unclosed.cs" _ hShort).1 with ⟨tree, hTree⟩ | ⟨fault, h, hFault⟩
  · simp [hTree] at hLine
  · rw [h] at hLine
    exact ⟨fault, h, hFault, hLine⟩

end Tree

end StateGuard
