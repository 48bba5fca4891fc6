import StateGuard.Proofs.Yaml.Scalars

/-!
# The tokens of written lines

The scanner finds exactly the tokens of the values that were written. A place of the scan is
described by what is left to read, the column of it, the columns of the open collections and the
tokens so far (`Scan.At`); a collection whose column lies to the right of the place may count as
closed already, so that the marks for the end of collections stand where the collections end, not
where the scanner notices it.
-/

namespace StateGuard.Yaml

namespace Scan

/-! ## Places -/

/-- The scan is about to go on in front of `rest`, in a column, with these collections open and
these tokens found. `allowed` says whether a key may begin there. -/
structure At (s : Scan) (allowed : Bool) (rest : List Char) (column : Nat) (columns : List Nat)
    (tokens : List Token) : Prop where
  place : ∃ c, skip false s.keyAllowed s.cursor = (c, allowed) ∧ c.rest = rest ∧
    c.column = column ∧ expire? c s.key = some none
  outer : s.outer = []
  columns : ∃ closed, s.columns = closed ++ columns ∧ (∀ d ∈ closed, column < d) ∧
    tokens = s.tokens.toList ++ List.replicate closed.length .blockEnd

/-- The same after the blanks have been skipped and collections have been closed. -/
structure Here (s : Scan) (allowed : Bool) (rest : List Char) (column : Nat) (columns : List Nat)
    (tokens : List Token) : Prop where
  rest : s.cursor.rest = rest
  column : s.cursor.column = column
  allowed : s.keyAllowed = allowed
  key : s.key = none
  outer : s.outer = []
  columns : s.columns = columns
  tokens : s.tokens.toList = tokens

/-- A collection to the right of the place can be closed. -/
theorem At.close {s : Scan} {allowed : Bool} {rest : List Char} {column inner : Nat}
    {columns : List Nat} {tokens : List Token}
    (h : s.At allowed rest column (inner :: columns) tokens) (hInner : column < inner) :
    s.At allowed rest column columns (tokens ++ [.blockEnd]) := by
  obtain ⟨closed, hColumns, hClosed, hTokens⟩ := h.columns
  refine ⟨h.place, h.outer, closed ++ [inner], by simp [hColumns], ?_, ?_⟩
  · intro d hd
    rcases List.mem_append.mp hd with hd | hd
    · exact hClosed d hd
    · rwa [List.mem_singleton.mp hd]
  · simp [hTokens, List.replicate_succ', List.append_assoc]

/-- Skipping makes nothing longer. -/
theorem length_skip_le (inFlow keyAllowed : Bool) (c : Cursor) :
    (skip inFlow keyAllowed c).1.rest.length ≤ c.rest.length := by
  fun_induction skip inFlow keyAllowed c with
  | case1 keyAllowed c stop _ n hBreak ih =>
      have hStop := length_skipBlanks_le (inFlow || !keyAllowed) c
      rw [Cursor.length_rest_newLine] at ih
      exact ih.trans ((Nat.sub_le _ _).trans hStop)
  | case2 keyAllowed c stop hBreak => exact length_skipBlanks_le _ c

/-- Go on to the next token. -/
theorem At.next {s : Scan} {allowed : Bool} {rest : List Char} {column : Nat}
    {columns : List Nat} {tokens : List Token} (h : s.At allowed rest column columns tokens)
    (hColumns : ∀ d ∈ columns.head?, d ≤ column) :
    rest.length ≤ s.cursor.rest.length ∧
      ∃ here, s.next? = some here ∧ here.Here allowed rest column columns tokens := by
  obtain ⟨c, hSkip, rfl, rfl, hExpire⟩ := h.place
  obtain ⟨closed, hOpen, hClosed, hTokens⟩ := h.columns
  have hLength : c.rest.length ≤ s.cursor.rest.length := by
    simpa [hSkip] using length_skip_le false s.keyAllowed s.cursor
  have hTake : s.columns.takeWhile (c.column < ·) = closed := by
    rw [hOpen, List.takeWhile_append_of_pos (by simpa using hClosed)]
    cases columns with
    | nil => simp
    | cons d columns =>
        have : ¬ c.column < d := Nat.not_lt.mpr (hColumns d rfl)
        simp [this]
  refine ⟨hLength, { s with
    cursor := c, keyAllowed := allowed, key := none, outer := [], columns := columns
    tokens := s.tokens ++ Array.replicate closed.length .blockEnd }, ?_, ?_⟩
  · simp only [next?, hSkip, expireKeys?, hExpire, h.outer, List.mapM_nil, closeBlocks, inFlow, hTake,
      Option.bind_eq_bind, Option.bind_some, Option.pure_def, List.isEmpty_nil, Bool.not_true,
      Bool.false_eq_true, if_false]
    rw [hOpen, List.drop_left]
  · exact ⟨rfl, rfl, rfl, rfl, rfl, rfl, by simp [hTokens]⟩

/-- One token more. -/
theorem run?_of_token {s here after : Scan} {c : Char} {rest : List Char}
    (hNext : s.next? = some here) (hRest : here.cursor.rest = c :: rest)
    (hToken : here.token? c rest = some after)
    (hLess : after.cursor.rest.length < s.cursor.rest.length) : s.run? = after.run? := by
  rw [run?.eq_def]
  simp only [hNext, Option.bind_eq_bind, Option.bind_some, hRest, hToken, dif_pos hLess]

/-- The tokens at the end of the text. -/
theorem At.finish {s : Scan} {allowed : Bool} {column : Nat} {columns : List Nat}
    {tokens : List Token} (h : s.At allowed [] column columns tokens)
    (hColumns : ∀ d ∈ columns.head?, d ≤ column) :
    s.run? = some (tokens ++ List.replicate columns.length .blockEnd) := by
  obtain ⟨-, here, hNext, hHere⟩ := h.next hColumns
  rw [run?.eq_def]
  have hFlow : here.inFlow = false := by simp [inFlow, hHere.outer]
  simp [hNext, hHere.rest, finish?, closeAll, closeBlocks, hFlow, dropKey?, hHere.key,
    hHere.columns, hHere.tokens, List.takeWhile_eq_self_iff.mpr fun _ _ => rfl]

/-! ## Skipping -/

/-- Blanks in front of a word are skipped. -/
theorem skipBlanks_spaces (tabs : Bool) {c : Cursor} {n : Nat} {rest : List Char}
    (hRest : c.rest = spaces n ++ rest) (hWord : StartsWord rest) :
    skipBlanks tabs c = c.advance n := by
  have hMark : c.at? byteOrderMark = false := by
    cases n with
    | zero =>
        rw [Cursor.at?, hRest, spaces, List.replicate_zero, List.nil_append, beq_eq_false_iff_ne]
        intro hHead
        exact (hWord _ hHead).2.2 rfl
    | succ n =>
        rw [Cursor.at?, hRest, spaces, List.replicate_succ]
        rfl
  have hTake : (c.rest.takeWhile fun ch => ch == ' ' || (ch == '\t' && tabs)).length = n := by
    have hSpaces : ∀ ch ∈ spaces n, (ch == ' ' || (ch == '\t' && tabs)) = true := by
      simp [spaces]
    rw [hRest, List.takeWhile_append_of_pos hSpaces]
    cases rest with
    | nil => simp [spaces]
    | cons ch rest =>
        have hBlank := (hWord ch rfl).1
        simp only [isBlankOrBreak, isBlank, Bool.or_eq_false_iff] at hBlank
        simp [spaces, hBlank]
  have hHash : (c.advance n).at? '#' = false := by
    have hDrop : (spaces n ++ rest).drop n = rest := List.drop_left' (by simp [spaces])
    rw [Cursor.at?, Cursor.rest_advance, hRest, hDrop, beq_eq_false_iff_ne]
    intro hHead
    exact (hWord _ hHead).2.1 rfl
  simp [skipBlanks, hMark, Cursor.skipWhile, hTake, hHash]

/-- Up to a word of the same line, only blanks are skipped. -/
theorem skip_spaces (inFlow allowed : Bool) {c : Cursor} {n : Nat} {rest : List Char}
    (hRest : c.rest = spaces n ++ rest) (hWord : StartsWord rest) :
    skip inFlow allowed c = (c.advance n, allowed) := by
  have hDrop : (spaces n ++ rest).drop n = rest := List.drop_left' (by simp [spaces])
  have hBreak : lineBreak? (c.advance n).rest = none := by
    rw [Cursor.rest_advance, hRest, hDrop]
    exact lineBreak?_eq_none fun ch hch => (hWord ch hch).1
  rw [skip.eq_def]
  simp only [skipBlanks_spaces _ hRest hWord]
  split
  · next hSome =>
      rw [skipBlanks_spaces _ hRest hWord, hBreak] at hSome
      cases hSome
  · rfl

/-- In front of a word nothing is skipped. -/
theorem skip_word (inFlow allowed : Bool) {c : Cursor} (hWord : StartsWord c.rest) :
    skip inFlow allowed c = (c, allowed) := skip_spaces inFlow allowed (c := c) (n := 0) rfl hWord

/-- At the end of a line the scan goes on to the first word of the next one, where a key may
begin. -/
theorem skip_lineEnd (allowed : Bool) {c : Cursor} {tail : List Char}
    (hRest : c.rest = '\n' :: tail) (hTail : StartsLine tail) :
    skip false allowed c = (c.toNextLine tail, true) := by
  have hBlanks : skipBlanks (false || !allowed) c = c := by
    simp [skipBlanks, Cursor.at?, hRest, byteOrderMark, Cursor.skipWhile, Cursor.advance_zero]
  have hBreak : lineBreak? c.rest = some ('\n', 1) := by rw [hRest]; rfl
  rw [skip.eq_def]
  simp only [hBlanks]
  split
  · next hSome =>
      rw [hBlanks, hBreak] at hSome
      cases hSome
      rw [Bool.not_false, Bool.or_true]
      refine skip_spaces false true ?_ hTail
      rw [spaces_append_unindented, Cursor.rest_newLine, hRest]
      rfl
  · next hNone =>
      rw [hBlanks, hBreak] at hNone
      cases hNone

/-- In front of a token the scan stays where it is, as long as no key expires. -/
theorem next?_stay {s : Scan} (hWord : StartsWord s.cursor.rest)
    (hKeys : ∀ key ∈ s.key :: s.outer, expire? s.cursor key = some key)
    (hColumns : s.inFlow = true ∨ ∀ d ∈ s.columns.head?, d ≤ s.cursor.column) :
    s.next? = some s := by
  have hOuter : s.outer.mapM (expire? s.cursor) = some s.outer := by
    have hAll (keys : List (Option KeyStart))
        (h : ∀ key ∈ keys, expire? s.cursor key = some key) :
        keys.mapM (expire? s.cursor) = some keys := by
      induction keys with
      | nil => rfl
      | cons key keys ih =>
          simp [h key (by simp), ih fun other hOther => h other (by simp [hOther])]
    exact hAll s.outer fun key hKey => hKeys key (by simp [hKey])
  have hClose : s.closeBlocks (s.cursor.column < ·) = s := by
    unfold closeBlocks
    split
    · rfl
    · next hFlow =>
        have hTake : s.columns.takeWhile (s.cursor.column < ·) = [] := by
          have hHead := hColumns.resolve_left hFlow
          cases hList : s.columns with
          | nil => rfl
          | cons d columns =>
              have : d ≤ s.cursor.column := hHead d (by rw [hList]; rfl)
              simp
              omega
        simp [hTake]
  have hExpire : s.expireKeys? = some s := by
    simp [expireKeys?, hKeys s.key (by simp), hOuter]
  simp only [next?, skip_word s.inFlow s.keyAllowed hWord, hExpire, Option.bind_eq_bind,
    Option.bind_some, hClose]
  rfl

/-! ## Tokens -/

/-- The columns after a collection has been opened, unless it is open. -/
def opened (columns : List Nat) (column : Nat) : List Nat :=
  if columns.head? = some column then columns else column :: columns

/-- The mark for the beginning of a collection, unless it is open. -/
def openMark (columns : List Nat) (column : Nat) (mark : Token) : List Token :=
  if columns.head? = some column then [] else [mark]

/-- A token can be inserted in front of the last ones. -/
theorem toList_insertIdxIfInBounds {tokens : Array Token} {before last : List Token} (mark : Token)
    (h : tokens.toList = before ++ last) :
    (tokens.insertIdxIfInBounds before.length mark).toList = before ++ mark :: last := by
  have hSize : before.length ≤ tokens.size := by simp [← Array.length_toList, h]
  have hInsert (before : List Token) :
      (before ++ last).insertIdx before.length mark = before ++ mark :: last := by
    induction before with
    | nil => rfl
    | cons token before ih => simpa using ih
  rw [Array.insertIdxIfInBounds, dif_pos hSize, Array.toList_insertIdx, h, hInsert]

/-- Opening a collection in front of the last tokens. -/
theorem openBlock_eq {s : Scan} (column : Nat) (before last : List Token) (mark : Token)
    (hOuter : s.outer = []) (hColumns : ∀ d ∈ s.columns.head?, d ≤ column)
    (hTokens : s.tokens.toList = before ++ last) :
    ∃ tokens : Array Token, tokens.toList = before ++ openMark s.columns column mark ++ last ∧
      s.openBlock column before.length mark =
        { s with columns := opened s.columns column, tokens := tokens } := by
  have hFlow : s.inFlow = false := by simp [inFlow, hOuter]
  by_cases hOpen : s.columns.head? = some column
  · refine ⟨s.tokens, by simp [openMark, hOpen, hTokens], ?_⟩
    simp [openBlock, hFlow, hOpen, opened]
  · have hAny : s.columns.head?.any (column ≤ ·) = false := by
      cases hHead : s.columns.head? with
      | none => rfl
      | some d =>
          have hLe := hColumns d hHead
          have hNe : d ≠ column := fun hEq => hOpen (hEq ▸ hHead)
          simp
          omega
    refine ⟨s.tokens.insertIdxIfInBounds before.length mark, ?_, ?_⟩
    · rw [toList_insertIdxIfInBounds mark hTokens]
      simp [openMark, hOpen]
    · simp [openBlock, hFlow, hAny, opened, hOpen]

/-- Behind a token the next one may stand in the same line. -/
theorem Here.sameLine {s : Scan} {allowed : Bool} {rest : List Char} {column : Nat}
    {columns : List Nat} {tokens : List Token}
    (h : s.Here allowed (' ' :: rest) column columns tokens) (hWord : StartsWord rest) :
    s.At allowed rest (column + 1) columns tokens := by
  refine ⟨⟨s.cursor.advance 1, ?_, by simp [h.rest], by simp [h.column], ?_⟩, h.outer, [],
    by simp [h.columns], by simp, by simp [h.tokens]⟩
  · rw [← h.allowed]
    exact skip_spaces false s.keyAllowed (n := 1) h.rest hWord
  · rw [h.key]
    rfl

/-- Behind a token the line may end. No key may have to follow. -/
theorem at_lineEnd {s : Scan} {tail : List Char} (hRest : s.cursor.rest = '\n' :: tail)
    (hTail : StartsLine tail) (hKey : expire? (s.cursor.toNextLine tail) s.key = some none)
    (hOuter : s.outer = []) :
    s.At true (unindented tail) (indentOf tail) s.columns s.tokens.toList :=
  ⟨⟨s.cursor.toNextLine tail, skip_lineEnd s.keyAllowed hRest hTail,
    Cursor.rest_toNextLine hRest, by simp, hKey⟩, hOuter, [], by simp, by simp, by simp⟩

theorem Here.nextLine {s : Scan} {allowed : Bool} {tail : List Char} {column : Nat}
    {columns : List Nat} {tokens : List Token}
    (h : s.Here allowed ('\n' :: tail) column columns tokens) (hTail : StartsLine tail) :
    s.At true (unindented tail) (indentOf tail) columns tokens := by
  rw [← h.columns, ← h.tokens]
  exact at_lineEnd h.rest hTail (by rw [h.key]; rfl) h.outer

/-- A mark of documents is three equal characters. -/
theorem exists_of_isMark {mark : Char} {cs : List Char} (h : Cursor.isMark mark cs = true) :
    ∃ rest, cs = mark :: mark :: mark :: rest := by
  unfold Cursor.isMark at h
  split at h
  · simp only [Bool.and_eq_true, beq_iff_eq] at h
    obtain ⟨⟨⟨rfl, rfl⟩, rfl⟩, -⟩ := h
    exact ⟨_, rfl⟩
  · cases h

/-- A text that does not begin with a mark of documents does not become one with what follows. -/
theorem isMark_append_eq_false {mark : Char} {cs more : List Char}
    (hPrefix : [mark, mark, mark].isPrefixOf cs = false) (hMore : more.head? ≠ some mark) :
    Cursor.isMark mark (cs ++ more) = false := by
  by_contra hMark
  obtain ⟨rest, hRest⟩ := exists_of_isMark (by simpa using hMark)
  match cs with
  | [] => exact hMore (by simpa using congrArg List.head? hRest)
  | [a] => exact hMore (by simpa using congrArg List.head? (List.cons.inj hRest).2)
  | [a, b] =>
      exact hMore (by simpa using congrArg List.head? (List.cons.inj (List.cons.inj hRest).2).2)
  | a :: b :: d :: cs =>
      simp only [List.cons_append, List.cons.injEq] at hRest
      obtain ⟨rfl, rfl, rfl, -⟩ := hRest
      simp [List.isPrefixOf] at hPrefix

/-- A dash in front of an item. -/
theorem At.item {s : Scan} {rest : List Char} {column : Nat} {columns : List Nat}
    {tokens : List Token} (h : s.At true ('-' :: ' ' :: rest) column columns tokens)
    (hColumns : ∀ d ∈ columns.head?, d ≤ column) (hWord : StartsWord rest) :
    ∃ after : Scan, s.run? = after.run? ∧ after.At true rest (column + 2) (opened columns column)
      (tokens ++ openMark columns column .blockSequence ++ [.item]) := by
  obtain ⟨hLength, here, hNext, hHere⟩ := h.next hColumns
  have hFlow : here.inFlow = false := by simp [inFlow, hHere.outer]
  have hSize : here.tokens.size = tokens.length := by
    rw [← hHere.tokens, Array.length_toList]
  obtain ⟨opening, hOpening, hOpen⟩ := openBlock_eq column tokens [] .blockSequence hHere.outer
    (by simpa [hHere.columns]) (by simp [hHere.tokens])
  have hMark (mark : Char) : Cursor.isMark mark ('-' :: ' ' :: rest) = false := by
    by_contra hMark
    obtain ⟨more, hMore⟩ := exists_of_isMark (by simpa using hMark)
    simp only [List.cons.injEq] at hMore
    exact absurd (hMore.1.trans hMore.2.1.symm) (by decide)
  have hToken : here.token? '-' (' ' :: rest) = some { here with
      cursor := here.cursor.advance 1, columns := opened here.columns column, keyAllowed := true
      tokens := opening.push .item } := by
    have hItem : here.token? '-' (' ' :: rest) = here.item? := by
      simp [token?, hMark, blankNext, isBlankOrBreak_space]
    rw [hItem]
    simp [item?, hFlow, hHere.allowed, hHere.column, hSize, hOpen, dropKey?, hHere.key, allowKey,
      take, emit]
  refine ⟨_, run?_of_token hNext hHere.rest hToken ?_, ?_⟩
  · simp only [Cursor.length_rest_advance, hHere.rest]
    simp only [List.length_cons] at hLength ⊢
    omega
  · refine Here.sameLine ⟨by simp [hHere.rest], by simp [hHere.column], rfl, hHere.key, hHere.outer,
      by rw [hHere.columns], ?_⟩ hWord
    rw [Array.toList_push, hOpening, List.append_nil, hHere.columns]

/-! ### Scalars -/

/-- The place where a key might begin, if it may. -/
def noted (s : Scan) : Option KeyStart :=
  if s.keyAllowed then
    some ⟨s.tokens.size, s.cursor.index, s.cursor.line, s.cursor.column,
      !s.inFlow && s.columns.head? == some s.cursor.column⟩
  else none

theorem noteKey?_eq {s : Scan} (hKey : s.key = none) :
    s.noteKey? = some { s with key := s.noted } := by
  cases s with
  | mk cursor tokens columns key outer keyAllowed =>
      cases hKey
      cases keyAllowed <;> rfl

/-- On another line nothing is left of a place where a key might have begun, if there need not be
one. -/
theorem expire?_noted {s : Scan} {c : Cursor} (hLine : s.cursor.line < c.line)
    (hColumn : s.columns.head? ≠ some s.cursor.column) : expire? c s.noted = some none := by
  unfold noted
  split
  · simp [expire?, KeyStart.isStale, hLine, hColumn]
  · rfl

/-- A text without quotes is no mark of documents. -/
theorem isMark_plain {cs more : List Char} (hPlain : IsPlain cs)
    (hMore : ∀ d ∈ more.head?, d ≠ '-' ∧ d ≠ '.') :
    Cursor.isMark '-' (cs ++ more) = false ∧ Cursor.isMark '.' (cs ++ more) = false := by
  obtain ⟨c, rest, rfl⟩ := List.exists_cons_of_ne_nil hPlain.nonempty
  have hStart := hPlain.start
  simp only [startsWithMark, Bool.or_eq_false_iff] at hStart
  exact ⟨isMark_append_eq_false hStart.1.2 fun hHead => (hMore _ hHead).1 rfl,
    isMark_append_eq_false hStart.2 fun hHead => (hMore _ hHead).2 rfl⟩

/-- A text that the writer leaves without quotes is taken for a scalar without quotes, whatever
stands behind it. -/
theorem token?_plain {s : Scan} {c : Char} {cs more : List Char} (hPlain : IsPlain (c :: cs))
    (hOuter : s.outer = []) (hMore : ∀ d ∈ more.head?, d ≠ '-' ∧ d ≠ '.') :
    s.token? c (cs ++ more) = s.plain? := by
  have hFlow : s.inFlow = false := by simp [inFlow, hOuter]
  have hMarks := isMark_plain hPlain hMore
  rw [List.cons_append] at hMarks
  have hStart := hPlain.start
  simp only [startsWithMark, Bool.or_eq_false_iff] at hStart
  have hReserved : c ∉ reserved := by simpa using hStart.1.1.1
  have hSpecial : ((c == '?' || c == ':' || c == '-') && blankNext (cs ++ more)) = false := by
    have hAlone := hStart.1.1.2
    cases cs with
    | nil => rw [blankNext, Bool.and_true] at hAlone; rw [hAlone, Bool.false_and]
    | cons d cs => exact hAlone
  have hSpace : isBlankOrBreak c = false := by
    rw [isBlankOrBreak_of_isLineChar (hPlain.chars c (by simp)), beq_eq_false_iff_ne]
    exact hPlain.head c rfl
  have hStartsPlain : startsPlain false c (cs ++ more) = true := by
    unfold startsPlain
    cases hNext : blankNext (cs ++ more) <;> simp_all
  simp only [reserved, List.mem_cons, List.not_mem_nil, or_false, not_or] at hReserved
  cases hNext : blankNext (cs ++ more) with
  | false => simp [token?, hMarks, hFlow, hReserved, hNext, hStartsPlain]
  | true =>
      rw [hNext, Bool.and_true] at hSpecial
      simp only [Bool.or_eq_false_iff] at hSpecial
      simp [token?, hMarks, hFlow, hReserved, hSpecial, hStartsPlain]

/-- A scalar without quotes, up to where it ends. -/
theorem Here.plain {s : Scan} {allowed broken : Bool} {cs more : List Char} {column : Nat}
    {columns : List Nat} {tokens : List Token} {final : Cursor}
    (h : s.Here allowed (cs ++ more) column columns tokens) (hPlain : IsPlain cs)
    (hMore : ∀ d ∈ more.head?, d ≠ '-' ∧ d ≠ '.') (hColumns : ∀ d ∈ columns.head?, d ≤ column)
    (hEnd : EndsPlain ((columns.head?.map (· + 1)).getD 0) (s.cursor.advance cs.length) final
      broken) :
    ∃ c rest, cs ++ more = c :: rest ∧ s.token? c rest = some { s with
      cursor := final, keyAllowed := broken, key := s.noted
      tokens := s.tokens.push (.scalar .plain (String.ofList cs)) } := by
  obtain ⟨c, rest, rfl⟩ := List.exists_cons_of_ne_nil hPlain.nonempty
  have hFlow : s.inFlow = false := by simp [inFlow, h.outer]
  have hText : plainText? false ((columns.head?.map (· + 1)).getD 0) s.cursor =
      some ⟨c :: rest, final, broken⟩ := by
    refine plainText?_of_end hEnd hPlain.toIsBare ?_ rfl ?_ ?_
    · rw [Cursor.rest_advance, h.rest, List.drop_left]
    · have hMarks := isMark_plain hPlain hMore
      simp only [Cursor.atMark, h.rest, hMarks.1, hMarks.2, Bool.or_self, Bool.and_false]
    · rw [h.column]
      cases hHead : columns.head? with
      | none => simp
      | some d => simpa using hColumns d hHead
  refine ⟨c, rest ++ more, rfl, ?_⟩
  rw [token?_plain hPlain h.outer hMore]
  simp only [plain?, noteKey?_eq h.key, Option.bind_eq_bind, Option.bind_some, h.columns, inFlow,
    h.outer, List.isEmpty_nil, Bool.not_true, hText]
  rfl

/-- A key and its colon. -/
theorem At.key {s : Scan} {key rest : List Char} {column : Nat} {columns : List Nat}
    {tokens : List Token} (h : s.At true (key ++ ':' :: rest) column columns tokens)
    (hColumns : ∀ d ∈ columns.head?, d ≤ column) (hPlain : IsPlain key)
    (hLength : key.length ≤ maxKeyLength) (hBlank : blankNext rest = true) :
    ∃ after : Scan, s.run? = after.run? ∧ after.Here false rest (column + key.length + 1)
      (opened columns column) (tokens ++ openMark columns column .blockMapping ++
        [.key, .scalar .plain (String.ofList key), .value]) := by
  obtain ⟨hShort, here, hNext, hHere⟩ := h.next hColumns
  have hPositive : 0 < key.length := List.length_pos_iff.mpr hPlain.nonempty
  have hStop : (here.cursor.advance key.length).rest = ':' :: rest := by
    rw [Cursor.rest_advance, hHere.rest, List.drop_left]
  have hEnd : EndsPlain ((columns.head?.map (· + 1)).getD 0) (here.cursor.advance key.length)
      (here.cursor.advance key.length) false := by
    refine endsPlain_colon hStop hBlank ?_ (by simp; omega)
    rw [Cursor.column_advance, hHere.column]
    cases hHead : columns.head? with
    | none => simp
    | some d =>
        have := hColumns d hHead
        simp
        omega
  obtain ⟨c, more, hCons, hToken⟩ := hHere.plain hPlain (by simp) hColumns hEnd
  let noting : Scan := { here with
    cursor := here.cursor.advance key.length, keyAllowed := false, key := here.noted
    tokens := here.tokens.push (.scalar .plain (String.ofList key)) }
  have hNoted : here.noted = some ⟨tokens.length, here.cursor.index, here.cursor.line, column,
      here.columns.head? == some column⟩ := by
    simp [noted, hHere.allowed, ← hHere.tokens, hHere.column, inFlow, hHere.outer]
  have hStay : noting.next? = some noting := by
    refine next?_stay ?_ ?_ (.inr ?_)
    · rw [hStop]
      simp [StartsWord, byteOrderMark]
      decide
    · intro place hPlace
      simp only [noting, hHere.outer, List.mem_singleton] at hPlace
      rw [hPlace, hNoted]
      simp [expire?, KeyStart.isStale, noting, hLength]
    · intro d hd
      rw [hHere.columns] at hd
      have := hColumns d hd
      simp [noting, hHere.column]
      omega
  let keyed : Scan := { noting with
    tokens := noting.tokens.insertIdxIfInBounds tokens.length .key, key := none }
  have hKeyed : keyed.tokens.toList = tokens ++ [.key, .scalar .plain (String.ofList key)] :=
    toList_insertIdxIfInBounds .key (by simp [noting, hHere.tokens])
  obtain ⟨opening, hOpening, hOpen⟩ := openBlock_eq (s := keyed) column tokens _ .blockMapping
    hHere.outer (by simpa [keyed, noting, hHere.columns]) hKeyed
  have hColumnsSame : keyed.columns = columns := hHere.columns
  rw [hColumnsSame] at hOpening hOpen
  let after : Scan := { keyed with
    cursor := noting.cursor.advance 1, columns := opened columns column, keyAllowed := false
    tokens := opening.push .value }
  have hColon : noting.token? ':' rest = some after := by
    have hMark (mark : Char) (hc : mark ≠ ':') : Cursor.isMark mark (':' :: rest) = false := by
      by_contra hMark
      obtain ⟨more, hMore⟩ := exists_of_isMark (by simpa using hMark)
      exact hc (List.cons.inj hMore).1.symm
    have hValue : noting.token? ':' rest = noting.value? := by
      simp [token?, hMark, hBlank]
    have hKey : noting.key = some ⟨tokens.length, here.cursor.index, here.cursor.line, column,
        here.columns.head? == some column⟩ := hNoted
    rw [hValue]
    simp only [value?, hKey]
    exact congrArg (fun s : Scan => some ((s.allowKey false).take .value 1)) hOpen
  refine ⟨after, (run?_of_token hNext (hHere.rest.trans hCons) hToken ?_).trans
    (run?_of_token hStay hStop hColon ?_), ?_⟩
  · rw [hStop]
    simp only [List.length_append, List.length_cons] at hShort ⊢
    omega
  · simp [after, noting, hHere.rest]
  · refine ⟨by simp [after, noting, hHere.rest], by simp [after, noting, hHere.column], rfl, rfl,
      hHere.outer, rfl, ?_⟩
    simp [after, hOpening]

/-- A scalar that takes up the rest of its line. -/
theorem At.plain {s : Scan} {allowed : Bool} {cs tail : List Char} {column inner : Nat}
    {columns : List Nat} {tokens : List Token}
    (h : s.At allowed (cs ++ '\n' :: tail) column (inner :: columns) tokens) (hPlain : IsPlain cs)
    (hColumn : inner < column) (hTail : StartsLine tail) (hIndent : indentOf tail ≤ inner) :
    ∃ after : Scan, s.run? = after.run? ∧
      after.At true (unindented tail) (indentOf tail) (inner :: columns)
        (tokens ++ [.scalar .plain (String.ofList cs)]) := by
  obtain ⟨hShort, here, hNext, hHere⟩ := h.next (by simp; omega)
  have hStop : (here.cursor.advance cs.length).rest = '\n' :: tail := by
    rw [Cursor.rest_advance, hHere.rest, List.drop_left]
  have hEnd : EndsPlain (((inner :: columns).head?.map (· + 1)).getD 0)
      (here.cursor.advance cs.length) ((here.cursor.advance cs.length).toNextLine tail) true :=
    endsPlain_lineEnd hStop hTail (by simp; omega)
  have hFinal := Cursor.rest_toNextLine hStop
  obtain ⟨c, more, hCons, hToken⟩ := hHere.plain hPlain (by simp) (by simp; omega) hEnd
  refine ⟨_, run?_of_token hNext (hHere.rest.trans hCons) hToken ?_, ⟨⟨_, skip_word false true ?_,
    hFinal, by simp, ?_⟩, hHere.outer, [], by simp [hHere.columns], by simp,
    by simp [hHere.tokens]⟩⟩
  · have hUnindented : (unindented tail).length ≤ tail.length := List.length_dropWhile_le _ _
    rw [hFinal]
    simp only [List.length_append, List.length_cons] at hShort
    omega
  · rw [hFinal]
    exact hTail
  · refine expire?_noted (by simp) ?_
    rw [hHere.columns, hHere.column]
    simp
    omega

/-- A scalar in single quotes at the end of a line. -/
theorem At.quoted {s : Scan} {allowed : Bool} {cs tail : List Char} {column inner : Nat}
    {columns : List Nat} {tokens : List Token}
    (h : s.At allowed ('\'' :: (cs.flatMap doubleQuote ++ '\'' :: '\n' :: tail)) column
      (inner :: columns) tokens)
    (hChars : ∀ c ∈ cs, isLineChar c = true) (hColumn : inner < column) (hTail : StartsLine tail) :
    ∃ after : Scan, s.run? = after.run? ∧
      after.At true (unindented tail) (indentOf tail) (inner :: columns)
        (tokens ++ [.scalar .singleQuoted (String.ofList cs)]) := by
  obtain ⟨hShort, here, hNext, hHere⟩ := h.next (by simp; omega)
  have hPositive : here.cursor.column ≠ 0 := by
    rw [hHere.column]
    omega
  have hInner : (here.cursor.advance 1).rest = cs.flatMap doubleQuote ++ '\'' :: '\n' :: tail := by
    rw [Cursor.rest_advance, hHere.rest]
    rfl
  let stop := (here.cursor.advance 1).advance ((cs.flatMap doubleQuote).length + 1)
  have hText : singleQuoted? (here.cursor.advance 1) = some (cs, stop) :=
    singleQuoted?_doubled hChars (by simp) hInner (by simp)
  have hStop : stop.rest = '\n' :: tail := by
    rw [Cursor.rest_advance, hInner, ← List.drop_drop, List.drop_left]
    rfl
  let after : Scan := { here with
    cursor := stop, keyAllowed := false, key := here.noted
    tokens := here.tokens.push (.scalar .singleQuoted (String.ofList cs)) }
  have hToken : here.token? '\'' (cs.flatMap doubleQuote ++ '\'' :: '\n' :: tail) = some after := by
    have hDispatch : here.token? '\'' (cs.flatMap doubleQuote ++ '\'' :: '\n' :: tail) =
        here.quoted? .singleQuoted := by
      simp [token?, hPositive]
    rw [hDispatch]
    simp only [quoted?, noteKey?_eq hHere.key, Option.bind_eq_bind, Option.bind_some, if_true,
      hText]
    rfl
  refine ⟨after, run?_of_token hNext hHere.rest hToken ?_, ?_⟩
  · rw [hStop]
    simp only [List.length_cons, List.length_append] at hShort ⊢
    omega
  · have hAt : after.At true (unindented tail) (indentOf tail) after.columns after.tokens.toList :=
      at_lineEnd hStop hTail
        (expire?_noted (by simp [after, stop]) (by rw [hHere.columns, hHere.column]; simp; omega))
        hHere.outer
    simpa [after, hHere.columns, hHere.tokens] using hAt

/-- An empty sequence in brackets at the end of a line. -/
theorem At.brackets {s : Scan} {allowed : Bool} {tail : List Char} {column inner : Nat}
    {columns : List Nat} {tokens : List Token}
    (h : s.At allowed ('[' :: ']' :: '\n' :: tail) column (inner :: columns) tokens)
    (hColumn : inner < column) (hTail : StartsLine tail) :
    ∃ after : Scan, s.run? = after.run? ∧
      after.At true (unindented tail) (indentOf tail) (inner :: columns)
        (tokens ++ [.flowSequence, .flowSequenceEnd]) := by
  obtain ⟨hShort, here, hNext, hHere⟩ := h.next (by simp; omega)
  have hPositive : here.cursor.column ≠ 0 := by
    rw [hHere.column]
    omega
  let opening : Scan := { here with
    cursor := here.cursor.advance 1, outer := [here.noted], keyAllowed := true
    tokens := here.tokens.push .flowSequence }
  let closing : Scan := { here with
    cursor := here.cursor.advance 2, key := here.noted, keyAllowed := false
    tokens := (here.tokens.push .flowSequence).push .flowSequenceEnd }
  have hNoted : here.noted.all fun key => !key.isStale opening.cursor := by
    unfold noted
    split <;> simp [KeyStart.isStale, opening, maxKeyLength]
  have hOpen : here.token? '[' (']' :: '\n' :: tail) = some opening := by
    simp [token?, hPositive, openFlow?, noteKey?_eq hHere.key, allowKey, take, emit, hHere.outer,
      hHere.key, opening]
  have hInside : opening.next? = some opening := by
    refine next?_stay ?_ ?_ (.inl rfl)
    · simp [StartsWord, opening, hHere.rest, byteOrderMark]
      decide
    · intro key hKey
      simp only [opening, hHere.key, List.mem_cons, List.not_mem_nil, or_false] at hKey
      rcases hKey with rfl | rfl
      · rfl
      · cases hKey : here.noted with
        | none => rfl
        | some key => simp_all [expire?]
  have hClose : opening.token? ']' ('\n' :: tail) = some closing := by
    simp [token?, closeFlow?, dropKey?, hHere.key, allowKey, take, emit, opening, closing,
      Cursor.advance_advance, hHere.outer]
  refine ⟨closing, (run?_of_token hNext hHere.rest hOpen ?_).trans
    (run?_of_token hInside ?_ hClose ?_), ?_⟩
  · simp only [opening, Cursor.length_rest_advance, hHere.rest, List.length_cons] at hShort ⊢
    omega
  · simp [opening, hHere.rest]
  · simp [opening, closing, hHere.rest]
  · have hAt : closing.At true (unindented tail) (indentOf tail) closing.columns
        closing.tokens.toList :=
      at_lineEnd (by simp [closing, hHere.rest]) hTail
        (expire?_noted (by simp [closing]) (by rw [hHere.columns, hHere.column]; simp; omega))
        hHere.outer
    simpa [closing, hHere.columns, hHere.tokens] using hAt

end Scan

end StateGuard.Yaml
