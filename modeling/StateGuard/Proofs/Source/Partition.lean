import Mathlib.Data.List.TakeWhile
import StateGuard.Proofs.Source.Spans
import StateGuard.Proofs.Source.Spelling

/-!
# The tokens of a text and what lies between them

A text without lexical error falls into tokens and stretches between them.  `IsFiller` says what such a
stretch may hold, by the rules of the language and without the scanner: blank characters, and comments
that are complete.  `TokenStream.Partitions` says what the offsets of the tokens have to do with the
text.  Both are kept by one step of the lexer, and so by a whole run (`Lexer.IsCut`).

What a scanner takes it would also take if the text ended there, so every token is the token of its own
text (`Lexer.scan_take`).

## Main results

* `Position.advanceAll_origin`: lines count newlines, and columns the characters behind the last one.
* `Lexer.isFiller_of_triviaLength?`: what is skipped holds blank characters and complete comments.
* `Lexer.scan_take`: a lexeme is that of its own text.
* `TokenStream.ofSource_partitions`: the tokens of a text partition it.
-/

namespace StateGuard

/-! ## Places -/

/-- The place behind a text: lines are counted by newlines, and columns from the last of them. -/
def Position.behind (text : List Char) : Position :=
  ⟨1 + text.count '\n', (text.reverse.takeWhile (· ≠ '\n')).length⟩

theorem Position.behind_concat (text : List Char) (c : Char) :
    behind (text ++ [c]) = (behind text).advance c := by
  by_cases hc : c = '\n' <;> simp [behind, advance, hc, Nat.add_assoc]

/-- **Lines count newlines, and columns the characters behind the last one.** -/
theorem Position.advanceAll_origin (text : List Char) : origin.advanceAll text = behind text := by
  induction text using List.reverseRecOn with
  | nil => rfl
  | append_singleton text c ih =>
      rw [advanceAll_append, ih, behind_concat]
      rfl

theorem Position.advanceAll_behind (before text : List Char) :
    (behind before).advanceAll text = behind (before ++ text) := by
  rw [← advanceAll_origin, ← advanceAll_origin, advanceAll_append]

/-! ## Between the tokens -/

/-- Blank characters and complete comments, in a text that goes on with `next`.  A comment up to the end
of the line ends before a newline or with the text; any other ends with the first mark that closes it. -/
inductive IsFiller (next : List Char) : List Char → Prop where
  | nil : IsFiller next []
  | blank {c : Char} {cs : List Char} (hBlank : Text.isBlank c = true) (hRest : IsFiller next cs) :
      IsFiller next (c :: cs)
  | line {body cs : List Char} (hBody : '\n' ∉ body)
      (hEnd : ∀ c, (cs ++ next).head? = some c → c = '\n') (hRest : IsFiller next cs) :
      IsFiller next ('/' :: '/' :: (body ++ cs))
  | block {body cs : List Char} (hBody : ¬ ['*', '/'] <:+: body) (hRest : IsFiller next cs) :
      IsFiller next ('/' :: '*' :: (body ++ '*' :: '/' :: cs))

namespace Lexer

/-- A block comment ends with the first mark that closes it. -/
theorem exists_body_of_commentLength? {cs : List Char} {n : Nat} (h : commentLength? cs = some n) :
    ∃ body, cs.take n = body ++ ['*', '/'] ∧ ¬ ['*', '/'] <:+: body := by
  fun_induction commentLength? cs generalizing n with
  | case1 => simp at h
  | case2 cs =>
      obtain rfl := Option.some.inj h
      exact ⟨[], rfl, by simp⟩
  | case3 c cs hOpen ih =>
      obtain ⟨m, hm, rfl⟩ := Option.map_eq_some_iff.1 h
      obtain ⟨body, hBody, hNone⟩ := ih hm
      refine ⟨c :: body, by simp [hBody], ?_⟩
      rw [List.infix_cons_iff]
      rintro (⟨more, hMore⟩ | hInner)
      · -- the mark would begin with `c`
        obtain ⟨rfl, hSlash⟩ := List.cons.inj hMore
        have hSplit := List.take_append_drop m cs
        rw [hBody, ← hSlash] at hSplit
        exact hOpen _ rfl hSplit.symm
      · exact hNone hInner

theorem take_lineLength (cs : List Char) : cs.take (lineLength cs) = cs.takeWhile (· ≠ '\n') :=
  (List.prefix_iff_eq_take.1 (List.takeWhile_prefix _)).symm

/-- The rest of a line is followed by a newline, if by anything. -/
theorem head_drop_lineLength {cs : List Char} {c : Char}
    (h : (cs.drop (lineLength cs)).head? = some c) : c = '\n' := by
  have hDrop : cs.drop (lineLength cs) = cs.dropWhile (· ≠ '\n') := by
    have hWhole : cs.takeWhile (· ≠ '\n') ++ cs.drop (lineLength cs) =
        cs.takeWhile (· ≠ '\n') ++ cs.dropWhile (· ≠ '\n') := by
      rw [List.takeWhile_append_dropWhile, ← take_lineLength, List.take_append_drop]
    exact List.append_cancel_left hWhole
  have hHead := List.head?_dropWhile_not (· ≠ '\n') cs
  rw [hDrop] at h
  rw [h] at hHead
  simpa using hHead

/-- **What is skipped holds blank characters and complete comments.** -/
theorem isFiller_of_triviaLength? {cs : List Char} {n : Nat} (h : triviaLength? cs = some n) :
    IsFiller (cs.drop n) (cs.take n) := by
  fun_induction triviaLength? cs generalizing n with
  | case1 =>
      obtain rfl := Option.some.inj h
      exact .nil
  | case2 cs ih =>
      obtain ⟨m, hm, rfl⟩ := Option.map_eq_some_iff.1 h
      have hRest := ih hm
      rw [show m + (2 + lineLength cs) = lineLength cs + m + 2 by omega, List.drop_succ_cons,
        List.drop_succ_cons, List.take_succ_cons, List.take_succ_cons, List.take_add, ← List.drop_drop]
      refine .line ?_ ?_ hRest
      · rw [take_lineLength]
        intro hMem
        simpa using List.mem_takeWhile_imp hMem
      · rw [List.take_append_drop]
        exact fun c => head_drop_lineLength
  | case3 cs hNone => simp at h
  | case4 cs k hk ih =>
      obtain ⟨m, hm, rfl⟩ := Option.map_eq_some_iff.1 h
      have hRest := ih hm
      obtain ⟨body, hBody, hFirst⟩ := exists_body_of_commentLength? hk
      rw [show m + (2 + k) = k + m + 2 by omega, List.drop_succ_cons, List.drop_succ_cons,
        List.take_succ_cons, List.take_succ_cons, List.take_add, ← List.drop_drop, hBody,
        List.append_assoc]
      exact .block hFirst hRest
  | case5 c cs _ _ hBlank ih =>
      obtain ⟨m, hm, rfl⟩ := Option.map_eq_some_iff.1 h
      exact .blank hBlank (ih hm)
  | case6 c cs _ _ hBlank =>
      obtain rfl := Option.some.inj h
      exact .nil

/-- Where the stretch before a token ends, nothing is left to skip. -/
theorem triviaLength?_drop {cs : List Char} {n : Nat} (h : triviaLength? cs = some n) :
    triviaLength? (cs.drop n) = some 0 := by
  fun_induction triviaLength? cs generalizing n with
  | case1 => simp [triviaLength?]
  | case2 cs ih =>
      obtain ⟨m, hm, rfl⟩ := Option.map_eq_some_iff.1 h
      rw [show m + (2 + lineLength cs) = lineLength cs + m + 2 by omega, List.drop_succ_cons,
        List.drop_succ_cons, ← List.drop_drop]
      exact ih hm
  | case3 cs hNone => simp at h
  | case4 cs k hk ih =>
      obtain ⟨m, hm, rfl⟩ := Option.map_eq_some_iff.1 h
      rw [show m + (2 + k) = k + m + 2 by omega, List.drop_succ_cons, List.drop_succ_cons,
        ← List.drop_drop]
      exact ih hm
  | case5 c cs _ _ hBlank ih =>
      obtain ⟨m, hm, rfl⟩ := Option.map_eq_some_iff.1 h
      exact ih hm
  | case6 c cs hLine hBlock hBlank =>
      obtain rfl := Option.some.inj h
      rw [List.drop_zero, triviaLength?, if_neg hBlank]
      · exact hLine
      · exact hBlock

/-- Nothing to skip before a character: it is not blank and begins no comment. -/
theorem of_triviaLength?_eq_zero {c : Char} {cs : List Char} (h : triviaLength? (c :: cs) = some 0) :
    Text.isBlank c = false ∧ (c = '/' → cs.head? ≠ some '/' ∧ cs.head? ≠ some '*') := by
  rw [triviaLength?.eq_def] at h
  split at h
  case h_1 => contradiction
  case h_2 => simp at h
  case h_3 => split at h <;> simp at h
  case h_4 hLine hBlock hCons =>
    obtain ⟨rfl, rfl⟩ := List.cons.inj hCons
    refine ⟨?_, ?_⟩
    · by_contra hBlank
      simp [hBlank] at h
    · rintro rfl
      constructor
      · intro hHead
        obtain ⟨more, rfl⟩ := List.head?_eq_some_iff.1 hHead
        exact hLine more rfl rfl
      · intro hHead
        obtain ⟨more, rfl⟩ := List.head?_eq_some_iff.1 hHead
        exact hBlock more rfl rfl

/-! ## Tokens alone -/

/-- A run of characters is the same run of its own text. -/
theorem takeWhile_take (p : Char → Bool) (cs : List Char) :
    (cs.take (cs.takeWhile p).length).takeWhile p = cs.takeWhile p := by
  rw [← List.prefix_iff_eq_take.1 (List.takeWhile_prefix p), List.takeWhile_eq_self_iff]
  exact fun c => List.mem_takeWhile_imp

theorem scanText_take {cs value : List Char} {n : Nat} (h : scanText cs = .ok (value, n)) :
    scanText (cs.take n) = .ok (value, n) := by
  fun_induction scanText cs generalizing value n with
  | case1 => simp at h
  | case2 => simp at h
  | case3 =>
      obtain ⟨rfl, rfl⟩ := Prod.mk.inj (Except.ok.inj h)
      rfl
  | case4 => simp at h
  | case5 => simp at h
  | case6 c cs value m hText ih =>
      obtain ⟨rfl, rfl⟩ := Prod.mk.inj (Except.ok.inj h)
      rw [List.take_succ_cons, List.take_succ_cons, scanText, ih hText]
  | case7 => simp at h
  | case8 c cs hLine hQuote hLone hEscape value m hText ih =>
      obtain ⟨rfl, rfl⟩ := Prod.mk.inj (Except.ok.inj h)
      have hNotEscape : c ≠ '\\' := by
        rintro rfl
        cases cs with
        | nil => exact hLone rfl rfl
        | cons d cs => exact hEscape d cs rfl rfl
      rw [List.take_succ_cons, scanText, ih hText]
      all_goals simp_all

theorem scanSymbol?_take {c : Char} {cs : List Char} {which : Symbol} {n : Nat}
    (h : scanSymbol? c cs = some (which, n)) : scanSymbol? c (cs.take n) = some (which, n) := by
  have hHead : n = 1 → (cs.take n).head? = cs.head? := by
    rintro rfl
    cases cs <;> rfl
  unfold scanSymbol? at h
  split at h
  case h_13 =>
    split at h
    · split at h
      all_goals
        obtain ⟨rfl, rfl⟩ := Prod.mk.inj (Option.some.inj h)
        rfl
    all_goals
      obtain ⟨rfl, rfl⟩ := Prod.mk.inj (Option.some.inj h)
      rfl
  case h_14 =>
    split at h
    all_goals
      obtain ⟨rfl, rfl⟩ := Prod.mk.inj (Option.some.inj h)
      rfl
  case h_20 => simp at h
  -- the symbols of one character
  all_goals try
    obtain ⟨rfl, rfl⟩ := Prod.mk.inj (Option.some.inj h)
    rfl
  -- the symbols that may take a second one
  all_goals
    split at h
    · next hNext =>
        obtain ⟨rfl, rfl⟩ := Prod.mk.inj (Option.some.inj h)
        simp [scanSymbol?, hHead rfl, hNext]
    · first
        | obtain ⟨rfl, rfl⟩ := Prod.mk.inj (Option.some.inj h)
          simp [scanSymbol?]
        | simp at h

theorem scanNumber_take {c : Char} {cs : List Char} {lexeme : Lexeme} {n : Nat}
    (h : scanNumber c cs = .ok (lexeme, n)) : scanNumber c (cs.take n) = .ok (lexeme, n) := by
  have hLength : n = (cs.takeWhile continuesNumber).length := by
    unfold scanNumber at h
    dsimp only at h
    split at h
    · exact (Prod.mk.inj (Except.ok.inj h)).2.symm
    · simp at h
  rw [← h, scanNumber, scanNumber, hLength, takeWhile_take]

/-- **A lexeme is that of its own text.** -/
theorem scan_take {c : Char} {cs : List Char} {lexeme : Lexeme} {n : Nat}
    (h : scan c cs = .ok (lexeme, n)) : scan c (cs.take n) = .ok (lexeme, n) := by
  unfold scan at h ⊢
  split at h
  · next hWord =>
      obtain ⟨rfl, rfl⟩ := Prod.mk.inj (Except.ok.inj h)
      rw [if_pos hWord, scanWord, takeWhile_take]
  · next hWord =>
      rw [if_neg hWord]
      split at h
      · next hDigit =>
          rw [if_pos hDigit, scanNumber_take (eq_ok_of_mapError h)]
          rfl
      · next hDigit =>
          rw [if_neg hDigit]
          split at h
          · next hQuote =>
              rw [if_pos hQuote]
              split at h
              · next value m hText =>
                  obtain ⟨rfl, rfl⟩ := Prod.mk.inj (Except.ok.inj h)
                  rw [scanText_take hText]
              · simp at h
          · next hQuote =>
              rw [if_neg hQuote]
              split at h
              · next which m hSymbol =>
                  obtain ⟨rfl, rfl⟩ := Prod.mk.inj (Except.ok.inj h)
                  rw [scanSymbol?_take hSymbol]
              · simp at h

/-- A token is the only token of its own text, up to the end of that text. -/
theorem tokensFrom_alone {c : Char} {text rest : List Char} {lexeme : Lexeme}
    (hTrivia : triviaLength? (c :: (text ++ rest)) = some 0)
    (hScan : scan c (text ++ rest) = .ok (lexeme, text.length)) (start : Position) :
    tokensFrom start (c :: text) =
      .ok ⟨[⟨lexeme, ⟨start, start.advanceAll (c :: text)⟩⟩], start.advanceAll (c :: text)⟩ := by
  obtain ⟨hBlank, hComment⟩ := of_triviaLength?_eq_zero hTrivia
  have hScanText : scan c text = .ok (lexeme, text.length) := by
    have hTake := scan_take hScan
    rwa [List.take_left] at hTake
  have hTriviaText : triviaLength? (c :: text) = some 0 := by
    refine triviaLength?_eq_zero hBlank fun hSlash => ?_
    cases text with
    | nil => simp
    | cons d text => exact hComment hSlash
  rw [tokensFrom, hTriviaText]
  dsimp only
  split
  · next hEnd => simp at hEnd
  · next c' rest' hDrop =>
      obtain ⟨rfl, rfl⟩ := List.cons.inj hDrop
      rw [hScanText]
      simp only [List.take_length, List.drop_length, List.take_zero]
      rw [tokensFrom_of_isBlank (by simp)]
      rfl

end Lexer

/-! ## Texts -/

namespace TokenStream

/-- The characters of a text between two offsets. -/
def stretch (source : List Char) (first stop : Nat) : List Char := (source.take stop).drop first

/-- A token of a text between two offsets: it stands at their places, and it is the token of its own
text, which holds no other. -/
structure IsPiece (source : List Char) (token : Token) (cut : Nat × Nat) : Prop where
  covers : cut.1 < cut.2
  span_eq : token.span = ⟨.behind (source.take cut.1), .behind (source.take cut.2)⟩
  alone : TokenStream.ofSource (String.ofList (stretch source cut.1 cut.2)) =
    .ok ⟨[⟨token.lexeme, ⟨.origin, .behind (stretch source cut.1 cut.2)⟩⟩],
      .behind (stretch source cut.1 cut.2)⟩

/-- Tokens of a text behind an offset, each between two offsets.  These follow each other, and between
one token and the next there are blank characters and comments, as before the first and behind the
last. -/
structure PartitionsFrom (source : List Char) (offset : Nat) (tokens : List Token)
    (cuts : List (Nat × Nat)) : Prop where
  pieces : List.Forall₂ (IsPiece source) tokens cuts
  gaps : ∀ gap ∈ (offset :: cuts.map (·.2)).zip (cuts.map (·.1) ++ [source.length]),
    gap.1 ≤ gap.2 ∧ IsFiller (source.drop gap.2) (stretch source gap.1 gap.2)

theorem stretch_append (before text rest : List Char) :
    stretch (before ++ (text ++ rest)) before.length (before ++ text).length = text := by
  rw [stretch, ← List.append_assoc, List.take_left, List.drop_left]

namespace PartitionsFrom

variable {blank text rest before : List Char} {c : Char} {lexeme : Lexeme} {tokens : List Token}
  {cuts : List (Nat × Nat)}

/-- Behind the last token there are only blank characters and comments. -/
theorem finish (before : List Char) {cs : List Char}
    (hTrivia : Lexer.triviaLength? cs = some cs.length) :
    PartitionsFrom (before ++ cs) before.length [] [] := by
  have hFiller := Lexer.isFiller_of_triviaLength? hTrivia
  have hStretch := stretch_append before cs []
  rw [List.drop_length, List.take_length] at hFiller
  rw [List.append_nil] at hStretch
  refine ⟨.nil, ?_⟩
  simp only [List.map_nil, List.nil_append, List.zip_cons_cons, List.zip_nil_left,
    List.mem_singleton, forall_eq, List.drop_length, hStretch]
  exact ⟨by simp, hFiller⟩

/-- A token that the lexer cuts off stands between two offsets. -/
theorem isPiece (before : List Char)
    (hTrivia : Lexer.triviaLength? (blank ++ c :: (text ++ rest)) = some blank.length)
    (hScan : Lexer.scan c (text ++ rest) = .ok (lexeme, text.length)) :
    IsPiece (before ++ blank ++ (c :: text ++ rest))
      ⟨lexeme, ⟨.behind (before ++ blank), .behind (before ++ blank ++ c :: text)⟩⟩
      ((before ++ blank).length, (before ++ blank ++ c :: text).length) := by
  have hFirst : Lexer.triviaLength? (c :: (text ++ rest)) = some 0 := by
    have hDrop := Lexer.triviaLength?_drop hTrivia
    rwa [List.drop_left] at hDrop
  refine ⟨by simp, ?_, ?_⟩
  · dsimp only
    rw [List.take_left, ← List.append_assoc, List.take_left]
  · rw [stretch_append, TokenStream.ofSource, String.toList_ofList,
      Lexer.tokensFrom_alone hFirst hScan, Position.advanceAll_origin]

/-- **One step of the lexer:** a stretch of blanks and comments, then a token. -/
theorem token (before : List Char)
    (hTrivia : Lexer.triviaLength? (blank ++ c :: (text ++ rest)) = some blank.length)
    (hScan : Lexer.scan c (text ++ rest) = .ok (lexeme, text.length))
    (hRest : PartitionsFrom (before ++ blank ++ (c :: text ++ rest))
      (before ++ blank ++ c :: text).length tokens cuts) :
    PartitionsFrom (before ++ blank ++ (c :: text ++ rest)) before.length
      (⟨lexeme, ⟨.behind (before ++ blank), .behind (before ++ blank ++ c :: text)⟩⟩ :: tokens)
      (((before ++ blank).length, (before ++ blank ++ c :: text).length) :: cuts) := by
  have hFiller := Lexer.isFiller_of_triviaLength? hTrivia
  rw [List.drop_left, List.take_left] at hFiller
  refine ⟨.cons (isPiece before hTrivia hScan) hRest.pieces, ?_⟩
  simp only [List.map_cons, List.cons_append, List.zip_cons_cons, List.forall_mem_cons]
  refine ⟨⟨by simp, ?_⟩, hRest.gaps⟩
  have hStretch := stretch_append before blank (c :: text ++ rest)
  rw [← List.append_assoc] at hStretch
  simp only [List.cons_append] at hStretch
  rw [hStretch, List.drop_left]
  exact hFiller

end PartitionsFrom

/-- **A run of the lexer partitions its text,** wherever it begins. -/
theorem exists_partitionsFrom_of_isCut {start stop : Position} {cs : List Char} {tokens : List Token}
    (h : Lexer.IsCut start cs tokens stop) (before : List Char)
    (hStart : start = Position.behind before) :
    ∃ cuts, PartitionsFrom (before ++ cs) before.length tokens cuts := by
  induction h generalizing before with
  | @finish start cs hTrivia => exact ⟨[], .finish before hTrivia⟩
  | @token start stop blank text rest c lexeme tokens hTrivia hScan _ ih =>
      subst hStart
      rw [Position.advanceAll_behind, Position.advanceAll_behind] at *
      obtain ⟨cuts, hRest⟩ := ih (before ++ (blank ++ c :: text)) rfl
      have hPlace : before ++ (blank ++ c :: text) = before ++ blank ++ c :: text := by simp
      have hSource : before ++ blank ++ c :: text ++ rest =
          before ++ blank ++ (c :: text ++ rest) := by simp
      rw [hPlace, hSource] at hRest
      refine ⟨((before ++ blank).length, (before ++ blank ++ c :: text).length) :: cuts, ?_⟩
      simpa using hRest.token before hTrivia hScan

/-- The place behind a short text fits into words of 32 bits as soon as its lines can be counted. -/
theorem fits_behind_iff {text : List Char} (hShort : text.length < Word.capacity 32) :
    (Position.behind text).Fits ↔ text.count '\n' + 1 < Word.capacity 32 := by
  have hColumn : (Position.behind text).column ≤ text.length := by
    have hLength := (List.takeWhile_sublist (· ≠ '\n') (l := text.reverse)).length_le
    rwa [List.length_reverse] at hLength
  rw [Position.Fits, Position.behind, Nat.add_comm 1]
  exact and_iff_left (Nat.lt_of_le_of_lt hColumn hShort)

/-- **The tokens of a text partition it.**  Each token lies between two offsets, one token after the
other, and stands at the places of these; it is the only token of its own text.  Before, between and
behind the tokens there are only blank characters and complete comments.  The end of the text is not one
of the tokens: it is kept apart, at the place behind the last character.  All places fit into words of
32 bits, save the end of a text of nothing but newlines when these are too many to be counted from
one. -/
theorem ofSource_partitions (source : String) (hShort : source.length < Word.capacity 32)
    (stream : TokenStream) (h : TokenStream.ofSource source = .ok stream) :
    (∃ cuts, PartitionsFrom source.toList 0 stream.tokens cuts) ∧
    stream.stop = .behind source.toList ∧
    (∀ token ∈ stream.tokens, token.span.start.Fits ∧ token.span.stop.Fits) ∧
    (stream.stop.Fits ↔ source.toList.count '\n' + 1 < Word.capacity 32) := by
  have hCut := Lexer.isCut_tokensFrom h
  have hStop : stream.stop = .behind source.toList := by
    rw [hCut.stop_eq, Position.advanceAll_origin]
  refine ⟨?_, hStop, fun token ht => fits_of_mem h hShort ht, ?_⟩
  · exact exists_partitionsFrom_of_isCut hCut [] rfl
  · rw [hStop]
    exact fits_behind_iff hShort

/-- Comments of both kinds, a question mark before a number, and a quoted text over two lines. -/
theorem commented_tokens_partition :
    "@x/* y */?.5 // z\n\"a\\\nb\"".length < Word.capacity 32 ∧
      ∃ stream, TokenStream.ofSource "@x/* y */?.5 // z\n\"a\\\nb\"" = .ok stream ∧
        stream.lexemes = [.word "x", .symbol .question, .symbol .dot, .int 5, .text "a\nb"] ∧
        stream.stop = ⟨3, 2⟩ ∧
        ∃ cuts, PartitionsFrom "@x/* y */?.5 // z\n\"a\\\nb\"".toList 0 stream.tokens cuts := by
  have hShort : "@x/* y */?.5 // z\n\"a\\\nb\"".length < Word.capacity 32 := by decide
  have hLexemes : (TokenStream.ofSource "@x/* y */?.5 // z\n\"a\\\nb\"").map (·.lexemes) =
      .ok [.word "x", .symbol .question, .symbol .dot, .int 5, .text "a\nb"] := by
    decide +kernel
  refine ⟨hShort, ?_⟩
  cases hStream : TokenStream.ofSource "@x/* y */?.5 // z\n\"a\\\nb\"" with
  | error e => simp [hStream, Except.map] at hLexemes
  | ok stream =>
      obtain ⟨hCuts, hStop, -, -⟩ := ofSource_partitions _ hShort stream hStream
      rw [hStream] at hLexemes
      refine ⟨stream, rfl, Except.ok.inj hLexemes, ?_, hCuts⟩
      rw [hStop]
      decide

end TokenStream

end StateGuard
