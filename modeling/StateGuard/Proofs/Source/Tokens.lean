import StateGuard.Source.Lexer

/-!
# The places of tokens

Positions only grow while a text is cut: every character moves on to a later position.  A cut text is a
sequence of blank stretches and lexemes, each lexeme at least one character long and never beginning
with a blank one, so tokens stand in source order, cover something, and do not overlap.

`Lexer.IsCut` is a run of the lexer that ends well, with the characters of each step; what is said about
tokens follows from it by induction.  `Lexer.length_le_of_scan` and its companions bound what a step
takes by what is there, so no step looks past the end of the text.

## Main results

* `Position.line_advanceAll`: lines are counted by newlines.
* `Lexer.isCut_tokensFrom`: a text without lexical error is cut.
* `Lexer.IsCut.ordered`: tokens cover something and follow each other.
* `Lexer.IsCut.exists_stretch`, `Lexer.exists_stretch_of_error`: tokens and errors lie at places of the
  text.
-/

namespace StateGuard

/-! ## Positions -/

namespace Position

theorem le_iff {a b : Position} :
    a.le b = true ↔ a.line < b.line ∨ (a.line = b.line ∧ a.column ≤ b.column) := by
  simp [le]

@[simp]
theorem le_refl (a : Position) : a.le a = true := by simp [le_iff]

theorem le_trans {a b c : Position} (hab : a.le b = true) (hbc : b.le c = true) :
    a.le c = true := by
  rw [le_iff] at *
  omega

theorem le_antisymm {a b : Position} (hab : a.le b = true) (hba : b.le a = true) : a = b := by
  obtain ⟨line, column⟩ := a
  obtain ⟨line', column'⟩ := b
  rw [le_iff] at *
  simp only [mk.injEq] at *
  omega

/-- The one position comes earlier in the text. -/
def Before (a b : Position) : Prop := a.le b = true ∧ a ≠ b

theorem Before.trans_le {a b c : Position} (hab : a.Before b) (hbc : b.le c = true) :
    a.Before c := by
  refine ⟨le_trans hab.1 hbc, ?_⟩
  rintro rfl
  exact hab.2 (le_antisymm hab.1 hbc)

theorem Before.le_trans {a b c : Position} (hab : a.le b = true) (hbc : b.Before c) :
    a.Before c := by
  refine ⟨Position.le_trans hab hbc.1, ?_⟩
  rintro rfl
  exact hbc.2 (le_antisymm hbc.1 hab)

theorem before_advance (p : Position) (c : Char) : p.Before (p.advance c) := by
  unfold Before advance
  split
  · refine ⟨le_iff.2 (.inl (by simp)), fun h => ?_⟩
    have := congrArg line h
    simp at this
  · refine ⟨le_iff.2 (.inr ⟨rfl, by simp⟩), fun h => ?_⟩
    have := congrArg column h
    simp at this

theorem advanceAll_append (p : Position) (cs ds : List Char) :
    p.advanceAll (cs ++ ds) = (p.advanceAll cs).advanceAll ds := List.foldl_append

theorem le_advanceAll (p : Position) (cs : List Char) : p.le (p.advanceAll cs) = true := by
  induction cs generalizing p with
  | nil => exact le_refl p
  | cons c cs ih => exact le_trans (p.before_advance c).1 (ih (p.advance c))

/-- A stretch of text that is not empty ends later than it begins. -/
theorem before_advanceAll (p : Position) (c : Char) (cs : List Char) :
    p.Before (p.advanceAll (c :: cs)) :=
  (p.before_advance c).trans_le (le_advanceAll (p.advance c) cs)

/-- **Lines are counted by newlines.** -/
theorem line_advanceAll (p : Position) (cs : List Char) :
    (p.advanceAll cs).line = p.line + cs.count '\n' := by
  induction cs generalizing p with
  | nil => rfl
  | cons c cs ih =>
      have hStep : (p.advance c).line = p.line + if c == '\n' then 1 else 0 := by
        by_cases hc : c = '\n' <;> simp [advance, hc]
      show ((p.advance c).advanceAll cs).line = _
      rw [ih, hStep, List.count_cons]
      omega

theorem column_advanceAll_le (p : Position) (cs : List Char) :
    (p.advanceAll cs).column ≤ p.column + cs.length := by
  induction cs generalizing p with
  | nil => exact Nat.le_refl _
  | cons c cs ih =>
      have hStep : (p.advance c).column ≤ p.column + 1 := by
        unfold advance
        split <;> simp
      have := ih (p.advance c)
      show ((p.advance c).advanceAll cs).column ≤ _
      simp only [List.length_cons]
      omega

end Position

namespace Lexer

/-! ## What a step takes -/

theorem length_le_of_commentLength? {cs : List Char} {n : Nat} (h : commentLength? cs = some n) :
    n ≤ cs.length := by
  fun_induction commentLength? cs generalizing n with
  | case1 => simp at h
  | case2 cs =>
      obtain rfl := Option.some.inj h
      simp
  | case3 c cs _ ih =>
      obtain ⟨m, hm, rfl⟩ := Option.map_eq_some_iff.1 h
      have := ih hm
      simp only [List.length_cons]
      omega

theorem lineLength_le (cs : List Char) : lineLength cs ≤ cs.length :=
  (List.takeWhile_sublist _).length_le

theorem length_le_of_triviaLength? {cs : List Char} {n : Nat} (h : triviaLength? cs = some n) :
    n ≤ cs.length := by
  fun_induction triviaLength? cs generalizing n with
  | case1 =>
      obtain rfl := Option.some.inj h
      simp
  | case2 cs ih =>
      obtain ⟨m, hm, rfl⟩ := Option.map_eq_some_iff.1 h
      have := ih hm
      have := lineLength_le cs
      simp only [List.length_cons, List.length_drop] at *
      omega
  | case3 cs hNone => simp at h
  | case4 cs k hk ih =>
      obtain ⟨m, hm, rfl⟩ := Option.map_eq_some_iff.1 h
      have := ih hm
      have := length_le_of_commentLength? hk
      simp only [List.length_cons, List.length_drop] at *
      omega
  | case5 c cs _ _ _ ih =>
      obtain ⟨m, hm, rfl⟩ := Option.map_eq_some_iff.1 h
      have := ih hm
      simp only [List.length_cons]
      omega
  | case6 c cs _ _ _ =>
      obtain rfl := Option.some.inj h
      simp

theorem length_le_of_scanText {cs : List Char} :
    (∀ value n, scanText cs = .ok (value, n) → n ≤ cs.length) ∧
      ∀ n, scanText cs = .error n → n ≤ cs.length := by
  fun_induction scanText cs with
  | case1 => simp
  | case2 => simp
  | case3 => simp
  | case4 => simp
  | case5 c cs n hScan ih =>
      have := ih.2 n hScan
      simp
      omega
  | case6 c cs value n hScan ih =>
      have := ih.1 value n hScan
      simp
      omega
  | case7 c cs _ _ _ _ n hScan ih =>
      have := ih.2 n hScan
      simp
      omega
  | case8 c cs _ _ _ _ value n hScan ih =>
      have := ih.1 value n hScan
      simp
      omega

theorem length_le_of_scanSymbol? {c : Char} {cs : List Char} {which : Symbol} {n : Nat}
    (h : scanSymbol? c cs = some (which, n)) : n ≤ cs.length := by
  have hHead : ∀ d, cs.head? = some d → 1 ≤ cs.length := by
    cases cs <;> simp
  unfold scanSymbol? at h
  split at h
  all_goals grind

/-- A lexeme takes no more characters than there are. -/
theorem length_le_of_scan {c : Char} {cs : List Char} {lexeme : Lexeme} {n : Nat}
    (h : scan c cs = .ok (lexeme, n)) : n ≤ cs.length := by
  have hRun : ∀ p : Char → Bool, (cs.takeWhile p).length ≤ cs.length := fun p =>
    (List.takeWhile_sublist p).length_le
  unfold scan at h
  split at h
  · obtain ⟨-, rfl⟩ := Prod.mk.inj (Except.ok.inj h)
    exact hRun _
  · split at h
    · unfold scanNumber at h
      dsimp only at h
      split at h
      · obtain ⟨-, rfl⟩ := Prod.mk.inj (Except.ok.inj h)
        exact hRun _
      · cases h
    · split at h
      · split at h
        · next value m hText =>
            obtain ⟨-, rfl⟩ := Prod.mk.inj (Except.ok.inj h)
            exact length_le_of_scanText.1 value m hText
        · simp at h
      · split at h
        · next which m hSymbol =>
            obtain ⟨-, rfl⟩ := Prod.mk.inj (Except.ok.inj h)
            exact length_le_of_scanSymbol? hSymbol
        · simp at h

/-- A lexical error shows at a character that is there, or right behind the last one. -/
theorem length_le_of_scan_error {c : Char} {cs : List Char} {cause : LexCause} {n : Nat}
    (h : scan c cs = .error (cause, n)) : n ≤ (c :: cs).length := by
  unfold scan at h
  split at h
  · simp at h
  · split at h
    · unfold scanNumber at h
      dsimp only at h
      split at h
      · cases h
      · obtain ⟨-, rfl⟩ := Prod.mk.inj (Except.error.inj h)
        simp
    · split at h
      · split at h
        · simp at h
        · next m hText =>
            obtain ⟨-, rfl⟩ := Prod.mk.inj (Except.error.inj h)
            exact Nat.succ_le_succ (length_le_of_scanText.2 m hText)
      · split at h
        · simp at h
        · obtain ⟨-, rfl⟩ := Prod.mk.inj (Except.error.inj h)
          simp

/-! ## Blank characters -/

/-- **A blank character only moves the position.** -/
theorem tokensFrom_blank {c : Char} (hBlank : Text.isBlank c = true) (start : Position)
    (cs : List Char) : tokensFrom start (c :: cs) = tokensFrom (start.advance c) cs := by
  have hNotSlash : c ≠ '/' := by
    rintro rfl
    revert hBlank
    decide
  have hTrivia : triviaLength? (c :: cs) = (triviaLength? cs).map (· + 1) := by
    rw [triviaLength?]
    · simp [hBlank]
    · exact fun _ h => absurd h hNotSlash
    · exact fun _ h => absurd h hNotSlash
  rw [tokensFrom, tokensFrom, hTrivia]
  cases triviaLength? cs with
  | none => rfl
  | some n => rfl

/-- A text of blank characters has no tokens. -/
theorem tokensFrom_of_isBlank {cs : List Char} (h : ∀ c ∈ cs, Text.isBlank c = true)
    (start : Position) : tokensFrom start cs = .ok ⟨[], start.advanceAll cs⟩ := by
  induction cs generalizing start with
  | nil =>
      rw [tokensFrom, triviaLength?]
      rfl
  | cons c cs ih =>
      rw [tokensFrom_blank (h c List.mem_cons_self)]
      exact ih (fun d hd => h d (List.mem_cons_of_mem c hd)) (start.advance c)

/-! ## Runs -/

/-- A text cut into tokens, from a position on.  A step takes a blank stretch, then the first character
of a lexeme and the others. -/
inductive IsCut : Position → List Char → List Token → Position → Prop where
  | finish {start : Position} {cs : List Char} (hTrivia : triviaLength? cs = some cs.length) :
      IsCut start cs [] (start.advanceAll cs)
  | token {start stop : Position} {blank text rest : List Char} {c : Char} {lexeme : Lexeme}
      {tokens : List Token}
      (hTrivia : triviaLength? (blank ++ c :: (text ++ rest)) = some blank.length)
      (hScan : scan c (text ++ rest) = .ok (lexeme, text.length))
      (hRest : IsCut (start.advanceAll (blank ++ c :: text)) rest tokens stop) :
      IsCut start (blank ++ c :: (text ++ rest))
        (⟨lexeme, ⟨start.advanceAll blank, start.advanceAll (blank ++ c :: text)⟩⟩ :: tokens) stop

/-- **A text without lexical error is cut.** -/
theorem isCut_tokensFrom {start : Position} {cs : List Char} {stream : TokenStream}
    (h : tokensFrom start cs = .ok stream) : IsCut start cs stream.tokens stream.stop := by
  fun_induction tokensFrom start cs generalizing stream with
  | case1 => simp at h
  | case2 start cs n hTrivia first =>
      rename_i hEnd
      obtain rfl := Except.ok.inj h
      have hLength : n = cs.length :=
        Nat.le_antisymm (length_le_of_triviaLength? hTrivia) (List.drop_eq_nil_iff.1 hEnd)
      have hFirst : first = start.advanceAll cs := by
        simp only [first, hLength, List.take_length]
      show IsCut start cs [] first
      rw [hFirst]
      exact .finish (hLength ▸ hTrivia)
  | case3 => simp at h
  | case4 => simp at h
  | case5 start cs n hTrivia first c rest hDrop lexeme taken hScan after stream' hStream =>
      rename_i ih
      obtain rfl := Except.ok.inj h
      have hBlank : (cs.take n).length = n :=
        List.length_take_of_le (length_le_of_triviaLength? hTrivia)
      have hText : (rest.take taken).length = taken :=
        List.length_take_of_le (length_le_of_scan hScan)
      have hSplit : cs = cs.take n ++ c :: (rest.take taken ++ rest.drop taken) := by
        rw [List.take_append_drop, ← hDrop, List.take_append_drop]
      have hAfter : after = start.advanceAll (cs.take n ++ c :: rest.take taken) :=
        (Position.advanceAll_append ..).symm
      have hStep : IsCut start (cs.take n ++ c :: (rest.take taken ++ rest.drop taken))
          (⟨lexeme, ⟨first, start.advanceAll (cs.take n ++ c :: rest.take taken)⟩⟩ :: stream'.tokens)
          stream'.stop := by
        refine .token ?_ ?_ ?_
        · rw [← hSplit, hTrivia, hBlank]
        · rw [List.take_append_drop, hScan, hText]
        · rw [← hAfter]
          exact ih hStream
      rw [← hSplit, ← hAfter] at hStep
      exact hStep

namespace IsCut

variable {start stop : Position} {cs : List Char} {tokens : List Token}

theorem stop_eq (h : IsCut start cs tokens stop) : stop = start.advanceAll cs := by
  induction h with
  | finish => rfl
  | token _ _ _ ih =>
      rw [ih, ← Position.advanceAll_append, List.append_assoc, List.cons_append]

/-- **Tokens cover something and follow each other.** -/
theorem ordered (h : IsCut start cs tokens stop) :
    (∀ t ∈ tokens, start.le t.span.start = true ∧ t.span.start.Before t.span.stop) ∧
      tokens.Pairwise fun t u => t.span.stop.le u.span.start = true := by
  induction h with
  | finish => simp
  | @token start stop blank text rest c lexeme tokens _ _ _ ih =>
      have hCovers : (start.advanceAll blank).Before (start.advanceAll (blank ++ c :: text)) := by
        rw [Position.advanceAll_append]
        exact Position.before_advanceAll _ c text
      have hStart := Position.le_advanceAll start blank
      refine ⟨?_, ?_⟩
      · intro t ht
        rcases List.mem_cons.1 ht with rfl | ht
        · exact ⟨hStart, hCovers⟩
        · obtain ⟨hLater, hBefore⟩ := ih.1 t ht
          exact ⟨Position.le_trans (Position.le_trans hStart hCovers.1) hLater, hBefore⟩
      · exact List.pairwise_cons.2 ⟨fun u hu => (ih.1 u hu).1, ih.2⟩

/-- Tokens begin and end at places of the text. -/
theorem exists_stretch (h : IsCut start cs tokens stop) {t : Token} (ht : t ∈ tokens) :
    (∃ before, before <+: cs ∧ t.span.start = start.advanceAll before) ∧
      ∃ before, before <+: cs ∧ t.span.stop = start.advanceAll before := by
  induction h with
  | finish => simp at ht
  | @token start stop blank text rest c lexeme tokens _ _ _ ih =>
      have hText : blank ++ c :: (text ++ rest) = (blank ++ c :: text) ++ rest := by simp
      rcases List.mem_cons.1 ht with rfl | ht
      · exact ⟨⟨blank, List.prefix_append _ _, rfl⟩,
          ⟨blank ++ c :: text, hText ▸ List.prefix_append _ _, rfl⟩⟩
      · obtain ⟨⟨before, hBefore, hStart⟩, ⟨before', hBefore', hStop⟩⟩ := ih ht
        rw [hText]
        refine ⟨⟨blank ++ c :: text ++ before, ?_, ?_⟩, ⟨blank ++ c :: text ++ before', ?_, ?_⟩⟩
        · exact (List.prefix_append_right_inj _).2 hBefore
        · rw [hStart, ← Position.advanceAll_append]
        · exact (List.prefix_append_right_inj _).2 hBefore'
        · rw [hStop, ← Position.advanceAll_append]

end IsCut

/-- A lexical error lies at a place of the text. -/
theorem exists_stretch_of_error {start : Position} {cs : List Char} {e : Error}
    (h : tokensFrom start cs = .error e) :
    ∃ before, before <+: cs ∧ e.line = (start.advanceAll before).line := by
  fun_induction tokensFrom start cs with
  | case1 start cs _ =>
      obtain rfl := Except.error.inj h
      exact ⟨cs, List.prefix_refl cs, rfl⟩
  | case2 => simp at h
  | case3 start cs n _ first c rest hDrop cause taken _ =>
      obtain rfl := Except.error.inj h
      refine ⟨cs.take n ++ (c :: rest).take taken, ?_, ?_⟩
      · conv => rhs; rw [← List.take_append_drop n cs, hDrop]
        exact (List.prefix_append_right_inj _).2 (List.take_prefix _ _)
      · rw [Position.advanceAll_append]
  | case4 start cs n _ first c rest hDrop lexeme taken _ after e' hError ih =>
      obtain rfl := Except.error.inj h
      obtain ⟨before, hBefore, hLine⟩ := ih hError
      refine ⟨cs.take n ++ (c :: rest.take taken ++ before), ?_, ?_⟩
      · conv => rhs; rw [← List.take_append_drop n cs, hDrop]
        refine (List.prefix_append_right_inj _).2 ?_
        conv => rhs; rw [← List.take_append_drop taken rest]
        exact (List.prefix_append_right_inj (c :: rest.take taken)).2 hBefore
      · rw [hLine, Position.advanceAll_append, Position.advanceAll_append]
  | case5 => simp at h

end Lexer

end StateGuard
